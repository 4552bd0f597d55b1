import Unimatrix.Lib.Transaction
import Unimatrix.Store.Hash
import Unimatrix.Store.Schema

/-!
# The writers of the entry store

Model of `write.rs` and of the entry operations of `write_ext.rs`. Each one is a transaction
(`Txn.transaction`), or a single statement that commits on its own (`Txn.attempt`), whose steps are
the statements the program sends, in its order. A statement can fail, and then nothing is kept.

* `now` is the clock's reading. `scan` is the order SQLite meets the rows in where the query leaves it
  open (`LIMIT 1` without `ORDER BY`).
* Tags are read on another connection; no writer changes a tag before it reads one, so the working copy
  gives the same.
* `update_entry_status_extended` reads the entry again after its commit: that read may fail with the
  change kept.
-/

namespace Unimatrix

open Txn

/-- A program in a store transaction. -/
abbrev StoreTxn : Type → Type := Txn Store StoreError

namespace Store

/-! ## Statements -/

/-- `INSERT INTO entries`: the id must be new. -/
def insertRow (id : Nat) (row : EntryRow) : StoreTxn Unit :=
  statement fun s => match s.entries.lookup id with
    | some _ => .error .database
    | none => .ok ((), { s with entries := s.entries.insert id row })

/-- `UPDATE entries SET .. WHERE id = ?`, on the store. -/
def setRow (s : Store) (id : Nat) (f : EntryRow → EntryRow) : Store :=
  match s.entries.lookup id with
  | none => s
  | some row => { s with entries := s.entries.insert id (f row) }

/-- `UPDATE entries SET .. WHERE id = ?`. -/
def updateRow (id : Nat) (f : EntryRow → EntryRow) : StoreTxn Unit := Txn.update fun s => s.setRow id f

/-- `DELETE FROM entries WHERE id = ?`, which takes the tags of the entry with it. -/
def deleteRow (id : Nat) : StoreTxn Unit :=
  Txn.update fun s =>
    { s with entries := s.entries.erase id, entryTags := s.entryTags.filter fun t => t.1 ≠ id }

/-- `INSERT INTO entry_tags`: the entry must exist and the tag be new. -/
def insertTag (id : Nat) (tag : String) : StoreTxn Unit :=
  statement fun s =>
    if (s.entries.lookup id).isNone ∨ (id, tag) ∈ s.entryTags then .error .database
    else .ok ((), { s with entryTags := s.entryTags ++ [(id, tag)] })

/-- `INSERT INTO entry_tags .. ON CONFLICT DO NOTHING`. -/
def insertTagIfAbsent (id : Nat) (tag : String) : StoreTxn Unit :=
  statement fun s =>
    if (id, tag) ∈ s.entryTags then .ok ((), s)
    else if (s.entries.lookup id).isNone then .error .database
    else .ok ((), { s with entryTags := s.entryTags ++ [(id, tag)] })

/-- `DELETE FROM entry_tags WHERE ..`. -/
def deleteTags (p : Nat × String → Bool) : StoreTxn Unit :=
  Txn.update fun s => { s with entryTags := s.entryTags.filter fun t => !p t }

/-- `INSERT OR REPLACE INTO vector_map`. -/
def putVector (id dataId : Nat) : StoreTxn Unit :=
  Txn.update fun s => { s with vectorMap := s.vectorMap.insert id dataId }

/-- `DELETE FROM vector_map WHERE entry_id = ?`. -/
def deleteVector (id : Nat) : StoreTxn Unit :=
  Txn.update fun s => { s with vectorMap := s.vectorMap.erase id }

/-- `SELECT .. FROM entries WHERE id = ?`, where the entry must exist. -/
def fetchRow (id : Nat) : StoreTxn EntryRow := do
  let row ← Txn.query fun s => s.entries.lookup id
  okOr row (.entryNotFound id)

/-- A bound confidence: a NaN is stored as NULL, which the column does not take. -/
def bindConfidence (confidence : UInt64) : StoreTxn Unit := reject (!isNan confidence) .database

/-! ## Counters -/

/-- `counters::next_entry_id`. -/
def nextEntryId : StoreTxn Nat :=
  statement fun s => (s.counters.next "next_entry_id").map fun r => (r.1, { s with counters := r.2 })

/-- `counters::increment_counter`: a read and a write. -/
def incrementCounter (name : String) (delta : Nat) : StoreTxn Unit := do
  tick
  Txn.update fun s => { s with counters := s.counters.increment name delta }

/-- `counters::decrement_counter`: a read and a write. -/
def decrementCounter (name : String) (delta : Nat) : StoreTxn Unit := do
  tick
  Txn.update fun s => { s with counters := s.counters.decrement name delta }

/-- One entry leaves `old` and enters `new`. -/
def moveStatus (old new : Status) : StoreTxn Unit := do
  decrementCounter (statusCounterKey old) 1
  incrementCounter (statusCounterKey new) 1

/-! ## Insert, update, delete -/

/-- The row `insert` writes. -/
def newRow (sha256 : Digest) (entry : NewEntry) (now : Nat) : EntryRow where
  title := entry.title
  content := entry.content
  topic := entry.topic
  category := entry.category
  source := entry.source
  status := entry.status
  confidence := 0
  createdAt := now
  updatedAt := now
  lastAccessedAt := 0
  accessCount := 0
  supersedes := none
  supersededBy := none
  correctionCount := 0
  embeddingDim := 0
  createdBy := entry.createdBy
  modifiedBy := ""
  contentHash := computeContentHash sha256 entry.title entry.content
  previousHash := ""
  version := 1
  featureCycle := entry.featureCycle
  trustSource := entry.trustSource
  helpfulCount := 0
  unhelpfulCount := 0
  preQuarantineStatus := none

/-- The transaction of `insert`. -/
def insertBody (sha256 : Digest) (entry : NewEntry) (now : Nat) : StoreTxn Nat := do
  let id ← nextEntryId
  insertRow id (newRow sha256 entry now)
  entry.tags.forM (insertTag id)
  incrementCounter (statusCounterKey entry.status) 1
  pure id

/-- `SqlxStore::insert`. -/
def insert (sha256 : Digest) (entry : NewEntry) (now : Nat) :
    Conn Store StoreError → Except StoreError Nat × Conn Store StoreError :=
  transaction (insertBody sha256 entry now)

/-- The 24 columns `update` writes. -/
def rowOf (entry : EntryRecord) (old : EntryRow) : EntryRow where
  title := entry.title
  content := entry.content
  topic := entry.topic
  category := entry.category
  source := entry.source
  status := entry.status
  confidence := entry.confidence
  createdAt := entry.createdAt
  updatedAt := entry.updatedAt
  lastAccessedAt := entry.lastAccessedAt
  accessCount := entry.accessCount.toNat
  supersedes := entry.supersedes
  supersededBy := entry.supersededBy
  correctionCount := entry.correctionCount.toNat
  embeddingDim := entry.embeddingDim
  createdBy := entry.createdBy
  modifiedBy := entry.modifiedBy
  contentHash := entry.contentHash
  previousHash := entry.previousHash
  version := entry.version
  featureCycle := entry.featureCycle
  trustSource := entry.trustSource
  helpfulCount := entry.helpfulCount.toNat
  unhelpfulCount := entry.unhelpfulCount.toNat
  preQuarantineStatus := old.preQuarantineStatus

/-- The transaction of `update`. The counters move only when the status does. -/
def updateBody (entry : EntryRecord) : StoreTxn Unit := do
  let old ← fetchRow entry.id
  bindConfidence entry.confidence
  updateRow entry.id (rowOf entry)
  deleteTags fun t => t.1 = entry.id
  entry.tags.forM (insertTag entry.id)
  if entry.status ≠ old.status then moveStatus old.status entry.status else pure ()

/-- `SqlxStore::update`. -/
def update (entry : EntryRecord) :
    Conn Store StoreError → Except StoreError Unit × Conn Store StoreError :=
  transaction (updateBody entry)

/-- The transaction of `update_status`. -/
def updateStatusBody (entryId : Nat) (newStatus : Status) (now : Nat) : StoreTxn Unit := do
  let old ← fetchRow entryId
  updateRow entryId fun row => { row with status := newStatus, updatedAt := now }
  moveStatus old.status newStatus

/-- `SqlxStore::update_status`. -/
def updateStatus (entryId : Nat) (newStatus : Status) (now : Nat) :
    Conn Store StoreError → Except StoreError Unit × Conn Store StoreError :=
  transaction (updateStatusBody entryId newStatus now)

/-- The transaction of `delete`. -/
def deleteBody (entryId : Nat) : StoreTxn Unit := do
  let old ← fetchRow entryId
  deleteRow entryId
  deleteVector entryId
  decrementCounter (statusCounterKey old.status) 1

/-- `SqlxStore::delete`. -/
def delete (entryId : Nat) :
    Conn Store StoreError → Except StoreError Unit × Conn Store StoreError :=
  transaction (deleteBody entryId)

/-! ## Status changes and corrections -/

/-- `SqlxStore::get`. -/
def get (entryId : Nat) : Conn Store StoreError → Except StoreError EntryRecord × Conn Store StoreError :=
  attempt do
    let row ← fetchRow entryId
    let tags ← Txn.query fun s => s.tagsOf entryId
    pure (entryFromRow entryId row tags)

/-- The columns `update_entry_status_extended` writes. -/
def extendedStatus (newStatus : Status) (setModifiedBy : Option String)
    (preQuarantineStatus : Option UInt8) (now : Nat) (row : EntryRow) : EntryRow :=
  { row with
    status := newStatus
    modifiedBy := setModifiedBy.getD row.modifiedBy
    updatedAt := now
    preQuarantineStatus := preQuarantineStatus }

/-- The transaction of `update_entry_status_extended`. -/
def extendedStatusBody (entryId : Nat) (newStatus : Status) (setModifiedBy : Option String)
    (preQuarantineStatus : Option UInt8) (now : Nat) : StoreTxn Unit := do
  let old ← fetchRow entryId
  updateRow entryId (extendedStatus newStatus setModifiedBy preQuarantineStatus now)
  moveStatus old.status newStatus

/-- `SqlxStore::update_entry_status_extended`. -/
def updateEntryStatusExtended (entryId : Nat) (newStatus : Status) (setModifiedBy : Option String)
    (preQuarantineStatus : Option UInt8) (now : Nat) (c : Conn Store StoreError) :
    Except StoreError EntryRecord × Conn Store StoreError :=
  match transaction (extendedStatusBody entryId newStatus setModifiedBy preQuarantineStatus now) c with
  | (.ok (), c') => get entryId c'
  | (.error e, c') => (.error e, c')

/-- The row `correct_entry` writes for the correction of `original`. -/
def correctionRow (sha256 : Digest) (originalId : Nat) (original : EntryRecord)
    (correction : NewEntry) (embeddingDim : UInt16) (now : Nat) : EntryRow where
  title := correction.title
  content := correction.content
  topic := correction.topic
  category := correction.category
  source := correction.source
  status := correction.status
  confidence := 0
  createdAt := now
  updatedAt := now
  lastAccessedAt := 0
  accessCount := 0
  supersedes := some originalId
  supersededBy := none
  correctionCount := 0
  embeddingDim := embeddingDim
  createdBy := correction.createdBy
  modifiedBy := correction.createdBy
  contentHash := computeContentHash sha256 correction.title correction.content
  previousHash := original.contentHash
  version := original.version + 1
  featureCycle := correction.featureCycle
  trustSource := correction.trustSource
  helpfulCount := 0
  unhelpfulCount := 0
  preQuarantineStatus := none

/-- The columns `correct_entry` writes on the original. -/
def deprecatedBy (newId now : Nat) (row : EntryRow) : EntryRow :=
  { row with
    status := .deprecated
    supersededBy := some newId
    correctionCount := row.correctionCount + 1
    updatedAt := now }

/-- The reason `correct_entry` gives for an original without a content hash. -/
def emptyHashReason (originalId : Nat) : String :=
  "cannot correct entry " ++ toString originalId ++
    ": predecessor has empty content_hash (chain link would be malformed)"

/-- The checks `correct_entry` makes on the original. -/
def checkCorrectable (original : EntryRecord) : StoreTxn Unit := do
  reject (original.status ≠ .deprecated)
    (.invalidInput "original_id" "cannot correct a deprecated entry")
  reject (original.status ≠ .quarantined)
    (.invalidInput "original_id" "cannot correct quarantined entry; restore first")
  reject (!original.contentHash.isEmpty)
    (.invalidInput "original_id" (emptyHashReason original.id))

/-- The transaction of `correct_entry`. It returns the two records the caller gets. -/
def correctEntryBody (sha256 : Digest) (originalId : Nat) (correction : NewEntry) (newDataId : Nat)
    (embeddingDim : UInt16) (now : Nat) : StoreTxn (EntryRecord × EntryRecord) := do
  let row ← fetchRow originalId
  let tags ← Txn.query fun s => s.tagsOf originalId
  let original := entryFromRow originalId row tags
  checkCorrectable original
  let newId ← nextEntryId
  updateRow originalId (deprecatedBy newId now)
  moveStatus original.status .deprecated
  let newRec := correctionRow sha256 originalId original correction embeddingDim now
  insertRow newId newRec
  correction.tags.forM (insertTag newId)
  putVector newId newDataId
  incrementCounter (statusCounterKey newRec.status) 1
  pure ({ original with
          status := .deprecated
          supersededBy := some newId
          correctionCount := original.correctionCount + 1
          updatedAt := now },
        entryFromRow newId newRec correction.tags)

/-- `SqlxStore::correct_entry`. -/
def correctEntry (sha256 : Digest) (originalId : Nat) (correction : NewEntry) (newDataId : Nat)
    (embeddingDim : UInt16) (now : Nat) :
    Conn Store StoreError → Except StoreError (EntryRecord × EntryRecord) × Conn Store StoreError :=
  transaction (correctEntryBody sha256 originalId correction newDataId embeddingDim now)

/-! ## Tags -/

/-- `str::replace` of one character. -/
def replaceChar (c : Char) (by_ : List Char) (text : List Char) : List Char :=
  text.flatMap fun d => if d = c then by_ else [d]

/-- `like_escape`: the escape character first. -/
def likeEscape (s : String) : String :=
  String.ofList (replaceChar '_' ['\\', '_'] (replaceChar '%' ['\\', '%']
    (replaceChar '\\' ['\\', '\\'] s.toList)))

/-- `text LIKE pattern ESCAPE '\'`. Letters compare without case, in ASCII only. -/
def like : List Char → List Char → Bool
  | [], text => text.isEmpty
  | ['\\'], _ => false
  | '\\' :: c :: pattern, text => match text with
    | [] => false
    | d :: text => c.toLower == d.toLower && like pattern text
  | '%' :: pattern, text => text.tails.any fun rest => like pattern rest
  | '_' :: pattern, text => match text with
    | [] => false
    | _ :: text => like pattern text
  | c :: pattern, text => match text with
    | [] => false
    | d :: text => c.toLower == d.toLower && like pattern text

/-- An operand of `LIKE`, which SQLite reads up to a NUL. -/
def likeText (s : String) : List Char := s.toList.takeWhile fun c => c.toNat ≠ 0

/-- `entry_id = ?1 AND tag LIKE ?2`, with the pattern of a namespace. -/
def inNamespace (entryId : Nat) (ns : String) (t : Nat × String) : Bool :=
  t.1 = entryId && like (likeText (likeEscape ns ++ ":%")) (likeText t.2)

/-- `SqlxStore::add_tag`. -/
def addTag (entryId : Nat) (tag : String) :
    Conn Store StoreError → Except StoreError Unit × Conn Store StoreError :=
  transaction (insertTagIfAbsent entryId tag)

/-- `SqlxStore::remove_tag`. -/
def removeTag (entryId : Nat) (tag : String) :
    Conn Store StoreError → Except StoreError Unit × Conn Store StoreError :=
  transaction (deleteTags fun t => t = (entryId, tag))

/-- Take the tags of a namespace out; what one of them was. -/
def evictNamespace (scan : HashMap.IterOrder Nat String) (entryId : Nat) (ns : String) :
    StoreTxn (Option String) := do
  let prior ← Txn.query fun s =>
    (scan.arrange (s.entryTags.filter (inNamespace entryId ns))).head?.map Prod.snd
  deleteTags (inNamespace entryId ns)
  pure prior

/-- The first two steps of `replace_tag`: an empty namespace evicts nothing. -/
def evictPrior (scan : HashMap.IterOrder Nat String) (entryId : Nat) (ns : String) :
    StoreTxn (Option String) :=
  if ns.isEmpty then pure none else evictNamespace scan entryId ns

/-- The transaction of `replace_tag`. -/
def replaceTagBody (scan : HashMap.IterOrder Nat String) (entryId : Nat) (ns newTag : String) :
    StoreTxn (Option String) := do
  let prior ← evictPrior scan entryId ns
  insertTagIfAbsent entryId newTag
  pure prior

/-- `SqlxStore::replace_tag`. -/
def replaceTag (scan : HashMap.IterOrder Nat String) (entryId : Nat) (ns newTag : String) :
    Conn Store StoreError → Except StoreError (Option String) × Conn Store StoreError :=
  transaction (replaceTagBody scan entryId ns newTag)

/-! ## Usage, confidence and vector mappings -/

/-- The id lists of `record_usage`. -/
structure Usage where
  accessIds : List Nat
  helpfulIds : List Nat
  unhelpfulIds : List Nat
  decrementHelpfulIds : List Nat
  decrementUnhelpfulIds : List Nat

/-- The `SET` clause `record_usage` builds for one id. Where it names a column twice SQLite keeps the
last assignment, which is the decrement. -/
def Usage.apply (u : Usage) (id now : Nat) (row : EntryRow) : EntryRow :=
  { row with
    lastAccessedAt := now
    accessCount := if id ∈ u.accessIds then row.accessCount + 1 else row.accessCount
    helpfulCount :=
      if id ∈ u.decrementHelpfulIds then row.helpfulCount - 1
      else if id ∈ u.helpfulIds then row.helpfulCount + 1 else row.helpfulCount
    unhelpfulCount :=
      if id ∈ u.decrementUnhelpfulIds then row.unhelpfulCount - 1
      else if id ∈ u.unhelpfulIds then row.unhelpfulCount + 1 else row.unhelpfulCount }

/-- Recompute the confidence of an entry from its record. -/
def recomputeConfidence (f : EntryRecord → Nat → UInt64) (now id : Nat) : StoreTxn Unit := do
  let row ← fetchRow id
  let tags ← Txn.query fun s => s.tagsOf id
  let confidence := f (entryFromRow id row tags) now
  bindConfidence confidence
  updateRow id fun row => { row with confidence := confidence }

/-- The updates `record_usage` makes on an entry that exists. -/
def recordUsageOf (u : Usage) (confidenceFn : Option (EntryRecord → Nat → UInt64)) (now id : Nat) :
    StoreTxn Unit := do
  updateRow id (u.apply id now)
  match confidenceFn with
  | none => pure ()
  | some f => recomputeConfidence f now id

/-- The loop body of `record_usage_with_confidence`: an entry that does not exist is skipped. -/
def recordUsageEntry (u : Usage) (confidenceFn : Option (EntryRecord → Nat → UInt64)) (now id : Nat) :
    StoreTxn Unit := do
  let found ← Txn.query fun s => (s.entries.lookup id).isSome
  if found then recordUsageOf u confidenceFn now id else pure ()

/-- `SqlxStore::record_usage_with_confidence`; `record_usage` passes no function. -/
def recordUsage (allIds : List Nat) (u : Usage)
    (confidenceFn : Option (EntryRecord → Nat → UInt64)) (now : Nat) (c : Conn Store StoreError) :
    Except StoreError Unit × Conn Store StoreError :=
  if allIds.isEmpty then (.ok (), c)
  else transaction (allIds.forM (recordUsageEntry u confidenceFn now)) c

/-- `SqlxStore::increment_access_counts`. -/
def incrementAccessCounts (ids : List Nat) (amount : UInt32) (c : Conn Store StoreError) :
    Except StoreError Unit × Conn Store StoreError :=
  if ids.isEmpty || amount == 0 then (.ok (), c)
  else transaction (ids.forM fun id =>
    updateRow id fun row => { row with accessCount := row.accessCount + amount.toNat }) c

/-- `SqlxStore::update_confidence`. -/
def updateConfidence (entryId : Nat) (confidence : UInt64) :
    Conn Store StoreError → Except StoreError Unit × Conn Store StoreError :=
  attempt (statement fun s =>
    if (s.entries.lookup entryId).isNone then .error (.entryNotFound entryId)
    else if isNan confidence then .error .database
    else .ok ((), s.setRow entryId fun row => { row with confidence := confidence }))

/-- `SqlxStore::update_embedding_dim`. -/
def updateEmbeddingDim (entryId : Nat) (dim : UInt16) :
    Conn Store StoreError → Except StoreError Unit × Conn Store StoreError :=
  attempt (updateRow entryId fun row => { row with embeddingDim := dim })

/-- `SqlxStore::put_vector_mapping`. -/
def putVectorMapping (entryId dataId : Nat) :
    Conn Store StoreError → Except StoreError Unit × Conn Store StoreError :=
  attempt (putVector entryId dataId)

/-- `SqlxStore::delete_vector_mapping`. -/
def deleteVectorMapping (entryId : Nat) :
    Conn Store StoreError → Except StoreError Unit × Conn Store StoreError :=
  attempt (deleteVector entryId)

end Store

/-! ## Operations and runs -/

/-- The operations that never rewrite the text or the links of a row and never remove one. -/
inductive AppendOp where
  | insert (entry : NewEntry)
  | correctEntry (originalId : Nat) (correction : NewEntry) (newDataId : Nat) (embeddingDim : UInt16)
  | updateStatus (entryId : Nat) (newStatus : Status)
  | updateEntryStatusExtended (entryId : Nat) (newStatus : Status) (setModifiedBy : Option String)
      (preQuarantineStatus : Option UInt8)
  | addTag (entryId : Nat) (tag : String)
  | removeTag (entryId : Nat) (tag : String)
  | replaceTag (scan : HashMap.IterOrder Nat String) (entryId : Nat) (ns newTag : String)
  | recordUsage (allIds : List Nat) (u : Store.Usage)
      (confidenceFn : Option (EntryRecord → Nat → UInt64))
  | incrementAccessCounts (ids : List Nat) (amount : UInt32)
  | updateConfidence (entryId : Nat) (confidence : UInt64)
  | updateEmbeddingDim (entryId : Nat) (dim : UInt16)
  | putVectorMapping (entryId dataId : Nat)
  | deleteVectorMapping (entryId : Nat)

/-- The operations of the store. -/
inductive Op where
  | append (op : AppendOp)
  | update (entry : EntryRecord)
  | delete (entryId : Nat)

/-- What a run keeps of a result: the id it handed out, if any. -/
def handedOut {α : Type} (f : α → Option Nat) (r : Except StoreError α × Conn Store StoreError) :
    Except StoreError (Option Nat) × Conn Store StoreError := (r.1.map f, r.2)

/-- Call an operation. -/
def AppendOp.exec (sha256 : Digest) (now : Nat) (c : Conn Store StoreError) :
    AppendOp → Except StoreError (Option Nat) × Conn Store StoreError
  | .insert entry => handedOut some (Store.insert sha256 entry now c)
  | .correctEntry originalId correction newDataId embeddingDim =>
    handedOut (fun r => some r.2.id)
      (Store.correctEntry sha256 originalId correction newDataId embeddingDim now c)
  | .updateStatus entryId newStatus =>
    handedOut (fun _ => none) (Store.updateStatus entryId newStatus now c)
  | .updateEntryStatusExtended entryId newStatus setModifiedBy preQuarantineStatus =>
    handedOut (fun _ => none)
      (Store.updateEntryStatusExtended entryId newStatus setModifiedBy preQuarantineStatus now c)
  | .addTag entryId tag => handedOut (fun _ => none) (Store.addTag entryId tag c)
  | .removeTag entryId tag => handedOut (fun _ => none) (Store.removeTag entryId tag c)
  | .replaceTag scan entryId ns newTag =>
    handedOut (fun _ => none) (Store.replaceTag scan entryId ns newTag c)
  | .recordUsage allIds u confidenceFn =>
    handedOut (fun _ => none) (Store.recordUsage allIds u confidenceFn now c)
  | .incrementAccessCounts ids amount =>
    handedOut (fun _ => none) (Store.incrementAccessCounts ids amount c)
  | .updateConfidence entryId confidence =>
    handedOut (fun _ => none) (Store.updateConfidence entryId confidence c)
  | .updateEmbeddingDim entryId dim =>
    handedOut (fun _ => none) (Store.updateEmbeddingDim entryId dim c)
  | .putVectorMapping entryId dataId =>
    handedOut (fun _ => none) (Store.putVectorMapping entryId dataId c)
  | .deleteVectorMapping entryId => handedOut (fun _ => none) (Store.deleteVectorMapping entryId c)

/-- Call an operation. -/
def Op.exec (sha256 : Digest) (now : Nat) (c : Conn Store StoreError) :
    Op → Except StoreError (Option Nat) × Conn Store StoreError
  | .append op => op.exec sha256 now c
  | .update entry => handedOut (fun _ => none) (Store.update entry c)
  | .delete entryId => handedOut (fun _ => none) (Store.delete entryId c)

/-- A call: its operation, the clock's reading, and the failure it meets, if any. -/
structure Event (α : Type) where
  op : α
  now : Nat
  fault : Option (Nat × StoreError)

/-- The same call of another operation. -/
def Event.map {α β : Type} (f : α → β) (e : Event α) : Event β := ⟨f e.op, e.now, e.fault⟩

/-- The store, and the ids handed out so far, in order. -/
structure History where
  store : Store
  allocated : List Nat

namespace History

/-- One call. -/
def step (sha256 : Digest) (h : History) (e : Event Op) : History :=
  match e.op.exec sha256 e.now ⟨h.store, e.fault⟩ with
  | (.ok (some id), c) => ⟨c.db, h.allocated ++ [id]⟩
  | (_, c) => ⟨c.db, h.allocated⟩

/-- A run from a freshly created database. -/
def run (sha256 : Digest) (events : List (Event Op)) : History :=
  events.foldl (step sha256) ⟨Store.empty, []⟩

end History

end Unimatrix
