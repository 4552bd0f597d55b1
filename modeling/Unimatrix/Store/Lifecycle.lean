import Mathlib.Logic.Function.Basic
import Unimatrix.Store.Correction

/-!
# The lifecycle of an entry

Model of the status changes of `server.rs` (`change_status_with_audit` and its three callers) and of the
guards of the `context_quarantine` handler of `tools.rs`, over the store's `insert` and `correct_entry`.

* The audit event each of them logs is a task of its own; here the text it carries is returned with the
  record.
* `restore_with_audit` puts the entry back into the vector index when it is not there. The index and the
  embedder are outside: `newDataId` is the id the index allocates, when it gets that far.

A `Life` is what a row says of its status and its links. `LifeStep` lists what the five operations can do
to the lives of a store: **`LifecycleOp.exec_lifeStep`**. What holds over whole runs is in
`LifecycleRun.lean`.
-/

namespace Unimatrix

open Txn

/-! ## Status bytes -/

/-- `status as u8`. -/
def Status.toU8 : Status → UInt8
  | .active => 0
  | .deprecated => 1
  | .proposed => 2
  | .quarantined => 3

/-- `Status::try_from(value).ok()`. -/
def Status.tryFrom (value : UInt8) : Option Status :=
  if value = 0 then some .active
  else if value = 1 then some .deprecated
  else if value = 2 then some .proposed
  else if value = 3 then some .quarantined
  else none

@[simp] theorem Status.tryFrom_toU8 (st : Status) : Status.tryFrom st.toU8 = some st := by
  cases st <;> rfl

/-! ## The server's operations -/

/-- The `ServerError`s these operations return. -/
inductive ServerError where
  | core (e : StoreError)
  | invalidInput (field : String) (reason : String)
  deriving DecidableEq, Repr

namespace Store

/-- What a status change returns: the record, and the detail of the audit event it logs, if any. -/
structure Changed where
  record : EntryRecord
  detail : Option String

/-- `action_name`. -/
def actionName : Status → String
  | .deprecated => "deprecated"
  | .quarantined => "quarantined"
  | .active => "restored"
  | .proposed => "proposed"

/-- `pre_q_info`. -/
def preQInfo (newStatus : Status) (current : EntryRecord) : String :=
  if newStatus = .quarantined then
    " (pre_quarantine_status=" ++ toString current.status.toU8 ++ ")"
  else match current.preQuarantineStatus with
    | some pq => " (restored from pre_quarantine_status=" ++ toString pq ++ ")"
    | none => ""

/-- The detail of the audit event. -/
def auditDetail (entryId : Nat) (newStatus : Status) (reason : Option String)
    (current : EntryRecord) : String :=
  let detail := actionName newStatus ++ " entry #" ++ toString entryId ++ preQInfo newStatus current
  match reason with
  | some r => detail ++ ": " ++ r
  | none => detail

/-- A store error, as the server passes it on. -/
def toServer {α : Type} (r : Except StoreError α × Conn Store StoreError) :
    Except ServerError α × Conn Store StoreError := (r.1.mapError .core, r.2)

/-- The update `change_status_with_audit` makes once it has read the entry. -/
def applyStatus (entryId : Nat) (newStatus : Status) (reason : Option String) (agentId : String)
    (setModifiedBy : Bool) (now : Nat) (current : EntryRecord) (c : Conn Store StoreError) :
    Except StoreError Changed × Conn Store StoreError :=
  match updateEntryStatusExtended entryId newStatus (if setModifiedBy then some agentId else none)
    (if newStatus = .quarantined then some current.status.toU8 else none) now c with
  | (.ok record, c') => (.ok ⟨record, some (auditDetail entryId newStatus reason current)⟩, c')
  | (.error e, c') => (.error e, c')

/-- `change_status_with_audit`. -/
def changeStatusWithAudit (entryId : Nat) (newStatus : Status) (reason : Option String)
    (agentId : String) (setModifiedBy : Bool) (now : Nat) (c : Conn Store StoreError) :
    Except StoreError Changed × Conn Store StoreError :=
  match get entryId c with
  | (.error e, c') => (.error e, c')
  | (.ok current, c') =>
    if newStatus = .deprecated ∧ current.status = .deprecated then (.ok ⟨current, none⟩, c')
    else applyStatus entryId newStatus reason agentId setModifiedBy now current c'

/-- `deprecate_with_audit`. -/
def deprecateWithAudit (entryId : Nat) (reason : Option String) (agentId : String) (now : Nat) :
    Conn Store StoreError → Except StoreError Changed × Conn Store StoreError :=
  changeStatusWithAudit entryId .deprecated reason agentId false now

/-- `quarantine_with_audit`. -/
def quarantineWithAudit (entryId : Nat) (reason : Option String) (agentId : String) (now : Nat) :
    Conn Store StoreError → Except StoreError Changed × Conn Store StoreError :=
  changeStatusWithAudit entryId .quarantined reason agentId true now

/-- The status `restore_with_audit` goes back to. -/
def restoreTo (preQuarantineStatus : Option UInt8) : Status :=
  (preQuarantineStatus.bind Status.tryFrom).getD .active

/-- The end of `restore_with_audit`: find the vector of the entry, and give it one if the index
allocated an id for it. A mapping that cannot be written is left to the heal pass. -/
def reindex (entryId : Nat) (newDataId : Option Nat) (changed : Changed)
    (c : Conn Store StoreError) : Except StoreError Changed × Conn Store StoreError :=
  match attempt (Txn.query fun s : Store => s.vectorMap.lookup entryId) c with
  | (.error e, c') => (.error e, c')
  | (.ok (some _), c') => (.ok changed, c')
  | (.ok none, c') => match newDataId with
    | none => (.ok changed, c')
    | some dataId => (.ok changed, (putVectorMapping entryId dataId c').2)

/-- `restore_with_audit`. `indexed` says that the vector index already holds the entry. -/
def restoreWithAudit (entryId : Nat) (reason : Option String) (agentId : String) (indexed : Bool)
    (newDataId : Option Nat) (now : Nat) (c : Conn Store StoreError) :
    Except StoreError Changed × Conn Store StoreError :=
  match get entryId c with
  | (.error e, c') => (.error e, c')
  | (.ok entry, c') =>
    match changeStatusWithAudit entryId (restoreTo entry.preQuarantineStatus) reason agentId true now c'
      with
    | (.error e, c'') => (.error e, c'')
    | (.ok changed, c'') =>
      if 0 < changed.record.embeddingDim ∧ !indexed then reindex entryId newDataId changed c''
      else (.ok changed, c'')

/-- The action of `context_quarantine`. -/
inductive QuarantineAction where
  | quarantine
  | restore (indexed : Bool) (newDataId : Option Nat)

/-- The dispatch of `context_quarantine`, on the entry it has read. -/
def dispatchQuarantine (entryId : Nat) (reason : Option String) (agentId : String) (now : Nat)
    (entry : EntryRecord) (c : Conn Store StoreError) :
    QuarantineAction → Except ServerError Changed × Conn Store StoreError
  | .quarantine =>
    if entry.status = .quarantined then (.ok ⟨entry, none⟩, c)
    else toServer (quarantineWithAudit entryId reason agentId now c)
  | .restore indexed newDataId =>
    if entry.status ≠ .quarantined then (.error (.invalidInput "id" "entry is not quarantined"), c)
    else toServer (restoreWithAudit entryId reason agentId indexed newDataId now c)

/-- `context_quarantine`. -/
def contextQuarantine (entryId : Nat) (action : QuarantineAction) (reason : Option String)
    (agentId : String) (now : Nat) (c : Conn Store StoreError) :
    Except ServerError Changed × Conn Store StoreError :=
  match get entryId c with
  | (.error e, c') => (.error (.core e), c')
  | (.ok entry, c') => dispatchQuarantine entryId reason agentId now entry c' action

end Store

/-! ## Runs -/

/-- The operations of the lifecycle. `restoreWithAudit` is the restore without the handler's guard. -/
inductive LifecycleOp where
  | insert (entry : NewEntry)
  | correctEntry (originalId : Nat) (correction : NewEntry) (newDataId : Nat) (embeddingDim : UInt16)
  | deprecateWithAudit (entryId : Nat) (reason : Option String) (agentId : String)
  | contextQuarantine (entryId : Nat) (action : Store.QuarantineAction) (reason : Option String)
      (agentId : String)
  | restoreWithAudit (entryId : Nat) (reason : Option String) (agentId : String) (indexed : Bool)
      (newDataId : Option Nat)

/-- Call an operation; `some id` when it corrected the entry `id`. -/
def LifecycleOp.exec (sha256 : Digest) (now : Nat) (c : Conn Store StoreError) :
    LifecycleOp → Option Nat × Store
  | .insert entry => (none, (Store.insert sha256 entry now c).2.db)
  | .correctEntry originalId correction newDataId embeddingDim =>
    match Store.correctEntry sha256 originalId correction newDataId embeddingDim now c with
    | (.ok _, c') => (some originalId, c'.db)
    | (.error _, c') => (none, c'.db)
  | .deprecateWithAudit entryId reason agentId =>
    (none, (Store.deprecateWithAudit entryId reason agentId now c).2.db)
  | .contextQuarantine entryId action reason agentId =>
    (none, (Store.contextQuarantine entryId action reason agentId now c).2.db)
  | .restoreWithAudit entryId reason agentId indexed newDataId =>
    (none, (Store.restoreWithAudit entryId reason agentId indexed newDataId now c).2.db)

/-- The store, and the entries corrected so far, in order. -/
structure Lifecycle where
  store : Store
  corrected : List Nat

namespace Lifecycle

/-- One call. -/
def step (sha256 : Digest) (h : Lifecycle) (e : Event LifecycleOp) : Lifecycle :=
  let r := e.op.exec sha256 e.now ⟨h.store, e.fault⟩
  ⟨r.2, h.corrected ++ r.1.toList⟩

/-- A run from an empty store. -/
def run (sha256 : Digest) (events : List (Event LifecycleOp)) : Lifecycle :=
  events.foldl (step sha256) ⟨Store.empty, []⟩

end Lifecycle

/-- What the handlers promise: no entry is created quarantined, and a restore passes the guards of
`context_quarantine`. -/
def LifecycleOp.Guarded : LifecycleOp → Prop
  | .insert entry => entry.status ≠ .quarantined
  | .correctEntry _ correction _ _ => correction.status ≠ .quarantined
  | .deprecateWithAudit _ _ _ => True
  | .contextQuarantine _ _ _ _ => True
  | .restoreWithAudit _ _ _ _ _ => False

/-! ## Lives -/

/-- What a row says of its status and its links. -/
structure Life where
  status : Status
  preQ : Option UInt8
  supersedes : Option Nat
  supersededBy : Option Nat
  deriving DecidableEq, Repr

/-- The life of a row. -/
def EntryRow.life (row : EntryRow) : Life :=
  ⟨row.status, row.preQuarantineStatus, row.supersedes, row.supersededBy⟩

/-- The lives of a store. -/
def Store.lives (s : Store) (id : Nat) : Option Life := (s.entries.lookup id).map EntryRow.life

/-- The life after a status change: entering quarantine writes down the status that is left. -/
def Life.withStatus (l : Life) (new : Status) : Life :=
  { l with status := new, preQ := if new = .quarantined then some l.status.toU8 else none }

/-- One lifecycle operation on the lives. -/
inductive LifeStep (L L' : Nat → Option Life) : Prop where
  | same : L' = L → LifeStep L L'
  | created (id : Nat) (st : Status) : L id = none → st ≠ .quarantined →
      L' = Function.update L id (some ⟨st, none, none, none⟩) → LifeStep L L'
  | corrected (old new : Nat) (l : Life) (st : Status) : L old = some l → l.status ≠ .deprecated →
      l.status ≠ .quarantined → L new = none → st ≠ .quarantined →
      L' = Function.update
        (Function.update L old (some { l with status := .deprecated, supersededBy := some new }))
        new (some ⟨st, none, some old, none⟩) → LifeStep L L'
  | deprecated (id : Nat) (l : Life) : L id = some l →
      L' = Function.update L id (some (l.withStatus .deprecated)) → LifeStep L L'
  | quarantined (id : Nat) (l : Life) : L id = some l → l.status ≠ .quarantined →
      L' = Function.update L id (some (l.withStatus .quarantined)) → LifeStep L L'
  | restored (id : Nat) (l : Life) : L id = some l → l.status = .quarantined →
      L' = Function.update L id (some (l.withStatus (Store.restoreTo l.preQ))) → LifeStep L L'

namespace Store

theorem lives_eq_some {s : Store} {id : Nat} {l : Life} :
    s.lives id = some l ↔ ∃ row, s.entries.lookup id = some row ∧ row.life = l :=
  Option.map_eq_some_iff

theorem lives_of_lookup {s : Store} {id : Nat} {row : EntryRow}
    (h : s.entries.lookup id = some row) : s.lives id = some row.life :=
  lives_eq_some.mpr ⟨row, h, rfl⟩

theorem lives_of_lookup_none {s : Store} {id : Nat} (h : s.entries.lookup id = none) :
    s.lives id = none := by
  unfold lives
  rw [h]
  rfl

theorem lives_congr {s s' : Store} (h : s'.entries = s.entries) : s'.lives = s.lives := by
  funext id
  unfold lives
  rw [h]

/-- Writing a row changes one life. -/
theorem lives_insert {s s' : Store} {id : Nat} {row : EntryRow}
    (h : s'.entries = s.entries.insert id row) :
    s'.lives = Function.update s.lives id (some row.life) := by
  funext i
  unfold lives
  rw [h, HashMap.lookup_insert_eq, Function.update_apply]
  split <;> rfl

/-- The entry is there and has the status. -/
def hasStatus (s : Store) (status : Status) (id : Nat) : Bool :=
  (s.entries.lookup id).any fun row => row.status = status

theorem hasStatus_of_lookup {s : Store} {id : Nat} {row : EntryRow}
    (h : s.entries.lookup id = some row) (status : Status) :
    s.hasStatus status id = decide (row.status = status) := by
  unfold hasStatus
  rw [h]
  rfl

/-! ### The store's operations -/

/-- A read changes nothing and returns the entry as it is. -/
theorem get_read (entryId : Nat) (c : Conn Store StoreError) :
    (get entryId c).2.db = c.db ∧
      ∀ record, (get entryId c).1 = .ok record → c.db.find entryId = some record := by
  have hs : Settled _ c (get entryId c) := attempt_settled _ c
  generalize get entryId c = r at hs ⊢
  cases hs with
  | failed e => exact ⟨rfl, fun record h => by cases h⟩
  | committed a c' h =>
    obtain ⟨row, s₁, hf, h⟩ := Run.bind h
    obtain ⟨tags, s₂, hq, h⟩ := Run.bind h
    obtain ⟨hl, hs₁⟩ := run_fetchRow hf
    obtain ⟨ha, hc⟩ := h.ret
    refine ⟨by rw [hc, hq.query.2, hs₁], fun record hrec => ?_⟩
    cases hrec
    unfold find
    rw [hl, ha, hq.query.1, hs₁]
    rfl

theorem find_status {s : Store} {id : Nat} {record : EntryRecord} (h : s.find id = some record) :
    ∃ row, s.entries.lookup id = some row ∧ record.status = row.status ∧
      record.preQuarantineStatus = row.preQuarantineStatus := by
  obtain ⟨row, hl, rfl⟩ := Option.map_eq_some_iff.mp h
  exact ⟨row, hl, rfl, rfl⟩

/-- What a read finds: nothing, or the row of the entry. The database stays. -/
theorem get_cases (entryId : Nat) (c : Conn Store StoreError) :
    (∃ e c', get entryId c = (.error e, c') ∧ c'.db = c.db) ∨
      ∃ entry c' row, get entryId c = (.ok entry, c') ∧ c'.db = c.db ∧
        c.db.entries.lookup entryId = some row ∧ entry.status = row.status ∧
        entry.preQuarantineStatus = row.preQuarantineStatus := by
  obtain ⟨hdb, hread⟩ := get_read entryId c
  cases hg : get entryId c with
  | mk res c' =>
    rw [hg] at hdb hread
    cases res with
    | error e => exact .inl ⟨e, c', rfl, hdb⟩
    | ok entry =>
      obtain ⟨row, hl, hst, hpre⟩ := find_status (hread entry rfl)
      exact .inr ⟨entry, c', row, rfl, hdb, hl, hst, hpre⟩

theorem run_insertBody {sha256 : Digest} {entry : NewEntry} {now id : Nat} {s s' : Store}
    (h : Run (insertBody sha256 entry now) s id s') :
    s.entries.lookup id = none ∧ s'.entries = s.entries.insert id (newRow sha256 entry now) := by
  obtain ⟨id₁, s₁, hn, h⟩ := Run.bind h
  obtain ⟨_, s₂, hi, h⟩ := Run.bind h
  obtain ⟨_, s₃, ht, h⟩ := Run.bind h
  obtain ⟨_, s₄, hc, h⟩ := Run.bind h
  obtain ⟨hret, hs₄⟩ := h.ret
  obtain ⟨c, -, hs₁⟩ := run_nextEntryId hn
  obtain ⟨hnone, hs₂⟩ := run_insertRow hi
  rw [hs₁] at hnone hs₂
  rw [hret, hs₄, run_incrementCounter hc]
  exact ⟨hnone, by rw [(run_insertTags ht).1, hs₂]⟩

theorem run_correctEntryBody {sha256 : Digest} {originalId : Nat} {correction : NewEntry}
    {newDataId : Nat} {dim : UInt16} {now : Nat} {s s' : Store} {r : EntryRecord × EntryRecord}
    (h : Run (correctEntryBody sha256 originalId correction newDataId dim now) s r s') :
    ∃ row newId, s.entries.lookup originalId = some row ∧ row.status ≠ .deprecated ∧
      row.status ≠ .quarantined ∧ s.entries.lookup newId = none ∧
      s'.entries = (s.entries.insert originalId (deprecatedBy newId now row)).insert newId
        (correctionRow sha256 originalId (entryFromRow originalId row (s.tagsOf originalId))
          correction dim now) := by
  obtain ⟨row, newId, _, hl, ⟨hdep, hquar, -⟩, -, hnew, -, -, hs', -⟩ := run_correctEntryBody_eq h
  exact ⟨row, newId, hl, hdep, hquar, hnew, by rw [hs']⟩

theorem run_extendedStatusBody {entryId : Nat} {newStatus : Status} {by_ : Option String}
    {preQ : Option UInt8} {now : Nat} {s s' : Store} {u : Unit}
    (h : Run (extendedStatusBody entryId newStatus by_ preQ now) s u s') :
    ∃ row, s.entries.lookup entryId = some row ∧
      s'.entries = s.entries.insert entryId (extendedStatus newStatus by_ preQ now row) := by
  obtain ⟨row, s₁, hf, h⟩ := Run.bind h
  obtain ⟨_, s₂, hu, hm⟩ := Run.bind h
  obtain ⟨hl, hs₁⟩ := run_fetchRow hf
  rw [hs₁] at hu
  exact ⟨row, hl, by rw [run_moveStatus hm, Run.update hu, setRow_of_some hl]⟩

/-- A status update did nothing and failed, or it rewrote the row it found. -/
theorem updateEntryStatusExtended_cases {entryId : Nat} {newStatus : Status} {by_ : Option String}
    {preQ : Option UInt8} {now : Nat} {c : Conn Store StoreError}
    {r : Except StoreError EntryRecord × Conn Store StoreError}
    (h : updateEntryStatusExtended entryId newStatus by_ preQ now c = r) :
    (r.2.db = c.db ∧ ∃ e, r.1 = .error e) ∨
      ∃ row, c.db.entries.lookup entryId = some row ∧
        r.2.db.entries = c.db.entries.insert entryId (extendedStatus newStatus by_ preQ now row) ∧
        ∀ record, r.1 = .ok record → record.status = newStatus := by
  rw [← h]
  have hset := transaction_settled (extendedStatusBody entryId newStatus by_ preQ now) c
  unfold updateEntryStatusExtended
  generalize transaction (extendedStatusBody entryId newStatus by_ preQ now) c = t at hset ⊢
  cases hset with
  | failed e => exact .inl ⟨rfl, e, rfl⟩
  | committed _ c' hrun =>
    right
    obtain ⟨row, hl, he⟩ := run_extendedStatusBody hrun
    obtain ⟨hdb, hread⟩ := get_read entryId c'
    refine ⟨row, hl, by simp only [hdb, he], fun record hrec => ?_⟩
    obtain ⟨row', hl', hst, -⟩ := find_status (hread record hrec)
    rw [he, HashMap.lookup_insert_eq, if_pos rfl] at hl'
    cases hl'
    exact hst

/-! ### The server's operations -/

/-- What a call that sets the status of `id` to `new l` did to the lives. -/
structure Restatused (id : Nat) (new : Life → Status) (s : Store)
    (r : Except StoreError Changed × Conn Store StoreError) : Prop where
  lives : r.2.db.lives = s.lives ∨ ∃ l, s.lives id = some l ∧
    r.2.db.lives = Function.update s.lives id (some (l.withStatus (new l)))
  record : ∀ changed, r.1 = .ok changed → ∃ l l', s.lives id = some l ∧
    changed.record.status = new l ∧ r.2.db.lives id = some l' ∧ l'.status = new l

theorem Restatused.failed {id : Nat} {new : Life → Status} {s : Store} {c : Conn Store StoreError}
    {e : StoreError} (h : c.db = s) : Restatused id new s (.error e, c) :=
  ⟨.inl (by rw [h]), fun changed hc => by cases hc⟩

/-- The update either fails and leaves the database, or it writes the row of the entry. -/
theorem applyStatus_cases (entryId : Nat) (newStatus : Status) (reason : Option String) (agentId : String)
    (setModifiedBy : Bool) (now : Nat) (current : EntryRecord) (c : Conn Store StoreError) :
    ((applyStatus entryId newStatus reason agentId setModifiedBy now current c).2.db = c.db ∧
      ∃ e, (applyStatus entryId newStatus reason agentId setModifiedBy now current c).1 = .error e) ∨
    ∃ row, c.db.entries.lookup entryId = some row ∧
      (applyStatus entryId newStatus reason agentId setModifiedBy now current c).2.db.entries =
        c.db.entries.insert entryId (extendedStatus newStatus (if setModifiedBy then some agentId else none)
          (if newStatus = .quarantined then some current.status.toU8 else none) now row) ∧
      ∀ changed, (applyStatus entryId newStatus reason agentId setModifiedBy now current c).1 = .ok changed →
        changed.record.status = newStatus := by
  have hcases := updateEntryStatusExtended_cases (c := c) (r := updateEntryStatusExtended entryId
    newStatus (if setModifiedBy then some agentId else none)
    (if newStatus = .quarantined then some current.status.toU8 else none) now c) rfl
  unfold applyStatus
  generalize updateEntryStatusExtended entryId newStatus
    (if setModifiedBy then some agentId else none)
    (if newStatus = .quarantined then some current.status.toU8 else none) now c = r at hcases ⊢
  obtain ⟨(e | record), c'⟩ := r
  · refine hcases.imp (fun h => ⟨h.1, e, rfl⟩) ?_
    rintro ⟨row, hl, he, -⟩
    exact ⟨row, hl, he, fun changed hc => by cases hc⟩
  · refine hcases.imp (fun ⟨_, _, h⟩ => by cases h) ?_
    rintro ⟨row, hl, he, hrec⟩
    refine ⟨row, hl, he, fun changed hc => ?_⟩
    cases hc
    exact hrec record rfl

theorem applyStatus_restatused {entryId : Nat} (newStatus : Status) (reason : Option String)
    (agentId : String) (setModifiedBy : Bool) (now : Nat) {current : EntryRecord} {row : EntryRow}
    {c : Conn Store StoreError} (hl : c.db.entries.lookup entryId = some row)
    (hst : current.status = row.status) :
    Restatused entryId (fun _ => newStatus) c.db
      (applyStatus entryId newStatus reason agentId setModifiedBy now current c) := by
  have hcases := applyStatus_cases entryId newStatus reason agentId setModifiedBy now current c
  generalize applyStatus entryId newStatus reason agentId setModifiedBy now current c = r at hcases ⊢
  obtain ⟨res, c'⟩ := r
  rcases hcases with ⟨hdb, e, rfl⟩ | ⟨row', hl', he, hrec⟩
  · exact Restatused.failed hdb
  · rw [hl] at hl'
    cases hl'
    have hlives : c'.db.lives =
        Function.update c.db.lives entryId (some (row.life.withStatus newStatus)) := by
      rw [lives_insert he, hst]
      rfl
    cases res with
    | error e => exact ⟨.inr ⟨_, lives_of_lookup hl, hlives⟩, fun changed hc => by cases hc⟩
    | ok record =>
      refine ⟨.inr ⟨_, lives_of_lookup hl, hlives⟩, fun changed hc => ?_⟩
      cases hc
      have hself : c'.db.lives entryId = some (row.life.withStatus newStatus) := by
        rw [hlives, Function.update_self]
      exact ⟨_, _, lives_of_lookup hl, hrec _ rfl, hself, rfl⟩

/-- **A status change writes the status, and the one it leaves when it quarantines.** -/
theorem changeStatusWithAudit_restatused (entryId : Nat) (newStatus : Status)
    (reason : Option String) (agentId : String) (setModifiedBy : Bool) (now : Nat)
    (c : Conn Store StoreError) :
    Restatused entryId (fun _ => newStatus) c.db
      (changeStatusWithAudit entryId newStatus reason agentId setModifiedBy now c) := by
  unfold changeStatusWithAudit
  obtain ⟨e, c', hg, hdb⟩ | ⟨current, c', row, hg, hdb, hl, hst, -⟩ := get_cases entryId c
  · rw [hg]
    exact Restatused.failed hdb
  · have hl' : c'.db.entries.lookup entryId = some row := by rw [hdb, hl]
    simp only [hg]
    split
    · rename_i hdep
      refine ⟨.inl (by rw [hdb]), fun changed hc => ?_⟩
      cases hc
      refine ⟨_, _, lives_of_lookup hl, by simp only [hdep.1, hdep.2], lives_of_lookup hl', ?_⟩
      rw [hdep.1, ← hdep.2, hst]
      rfl
    · have happly := applyStatus_restatused newStatus reason agentId setModifiedBy now hl' hst
      rw [hdb] at happly
      exact happly

theorem reindex_keeps (entryId : Nat) (newDataId : Option Nat) (changed : Changed)
    (c : Conn Store StoreError) :
    (reindex entryId newDataId changed c).2.db.entries = c.db.entries ∧
      ∀ ch, (reindex entryId newDataId changed c).1 = .ok ch → ch = changed := by
  have hs : Settled _ c (attempt (Txn.query fun s : Store => s.vectorMap.lookup entryId) c) :=
    attempt_settled _ c
  unfold reindex
  generalize attempt (Txn.query fun s : Store => s.vectorMap.lookup entryId) c = r at hs ⊢
  cases hs with
  | failed e => exact ⟨rfl, fun ch h => by cases h⟩
  | committed o c' h =>
    have hc' : c'.db = c.db := h.query.2
    cases o with
    | some d => exact ⟨by simp only [hc'], fun ch h => by cases h; rfl⟩
    | none =>
      cases newDataId with
      | none => exact ⟨by simp only [hc'], fun ch h => by cases h; rfl⟩
      | some dataId =>
        have hp : Settled _ c' (putVectorMapping entryId dataId c') := attempt_settled _ c'
        refine ⟨?_, fun ch h => by cases h; rfl⟩
        simp only
        generalize putVectorMapping entryId dataId c' = q at hp ⊢
        cases hp with
        | failed e => simp only [hc']
        | committed _ c'' h => rw [(run_putVector h).1, hc']

/-- **A restore goes back to the status written down.** -/
theorem restoreWithAudit_restatused (entryId : Nat) (reason : Option String) (agentId : String)
    (indexed : Bool) (newDataId : Option Nat) (now : Nat) (c : Conn Store StoreError) :
    Restatused entryId (fun l => restoreTo l.preQ) c.db
      (restoreWithAudit entryId reason agentId indexed newDataId now c) := by
  unfold restoreWithAudit
  obtain ⟨e, c', hg, hdb⟩ | ⟨entry, c', row, hg, hdb, hl, -, hpre⟩ := get_cases entryId c
  · rw [hg]
    exact Restatused.failed hdb
  · have hlife : c.db.lives entryId = some row.life := lives_of_lookup hl
    have hchange := changeStatusWithAudit_restatused entryId
      (restoreTo entry.preQuarantineStatus) reason agentId true now c'
    simp only [hg]
    generalize changeStatusWithAudit entryId (restoreTo entry.preQuarantineStatus) reason agentId
      true now c' = r at hchange ⊢
    obtain ⟨res', c''⟩ := r
    -- the status of the change is the one the row wrote down
    have hback : Restatused entryId (fun l => restoreTo l.preQ) c.db (res', c'') := by
      rw [hdb, hpre] at hchange
      obtain ⟨hlives, hrec⟩ := hchange
      refine ⟨?_, fun changed hc => ?_⟩
      · rcases hlives with h | ⟨l, h, hu⟩
        · exact .inl h
        · rw [hlife] at h
          cases h
          exact .inr ⟨_, hlife, hu⟩
      · obtain ⟨l, l', h, hst, hl', hst'⟩ := hrec changed hc
        rw [hlife] at h
        cases h
        exact ⟨_, l', hlife, hst, hl', hst'⟩
    cases res' with
    | error e => exact hback
    | ok changed =>
      simp only
      split
      · obtain ⟨he, hok⟩ := reindex_keeps entryId newDataId changed c''
        have hsame := lives_congr he
        refine ⟨?_, fun ch hch => ?_⟩
        · rw [hsame]
          exact hback.lives
        · rw [hok ch hch, hsame]
          exact hback.record changed rfl
      · exact hback

/-- A guarded call of `context_quarantine` that quarantines. -/
theorem contextQuarantine_quarantine {entryId : Nat} {reason : Option String} {agentId : String}
    {now : Nat} (c : Conn Store StoreError) :
    LifeStep c.db.lives (contextQuarantine entryId .quarantine reason agentId now c).2.db.lives := by
  unfold contextQuarantine
  obtain ⟨e, c', hg, hdb⟩ | ⟨entry, c', row, hg, hdb, hl, hst, -⟩ := get_cases entryId c
  · exact LifeStep.same (by simp only [hg, hdb])
  · simp only [hg, dispatchQuarantine]
    split
    · exact LifeStep.same (by simp only [hdb])
    · rename_i hne
      obtain ⟨hlives, -⟩ := changeStatusWithAudit_restatused entryId .quarantined reason agentId true now c'
      rw [hdb] at hlives
      rcases hlives with h | ⟨l, h, hu⟩
      · exact LifeStep.same h
      · refine LifeStep.quarantined entryId l h ?_ hu
        rw [lives_of_lookup hl] at h
        cases h
        rw [hst] at hne
        exact hne

/-- A guarded restore: what it does, and what it returns. -/
theorem contextQuarantine_restore (entryId : Nat) (indexed : Bool) (newDataId : Option Nat)
    (reason : Option String) (agentId : String) (now : Nat) (c : Conn Store StoreError) :
    LifeStep c.db.lives
        (contextQuarantine entryId (.restore indexed newDataId) reason agentId now c).2.db.lives ∧
      ∀ changed,
        (contextQuarantine entryId (.restore indexed newDataId) reason agentId now c).1 =
          .ok changed →
        ∃ l l', c.db.lives entryId = some l ∧ l.status = .quarantined ∧
          changed.record.status = restoreTo l.preQ ∧
          (contextQuarantine entryId (.restore indexed newDataId) reason agentId now c).2.db.lives
            entryId = some l' ∧ l'.status = restoreTo l.preQ := by
  unfold contextQuarantine
  obtain ⟨e, c', hg, hdb⟩ | ⟨entry, c', row, hg, hdb, hl, hst, -⟩ := get_cases entryId c
  · simp only [hg]
    exact ⟨LifeStep.same (by simp only [hdb]), fun changed hc => by cases hc⟩
  · have hlife : c.db.lives entryId = some row.life := lives_of_lookup hl
    simp only [hg, dispatchQuarantine]
    split
    · exact ⟨LifeStep.same (by simp only [hdb]), fun changed hc => by cases hc⟩
    · rename_i hq
      have hquar : row.life.status = .quarantined := by
        rw [hst] at hq
        exact not_not.mp hq
      obtain ⟨hlives, hrec⟩ := restoreWithAudit_restatused entryId reason agentId indexed newDataId now c'
      rw [hdb] at hlives hrec
      refine ⟨?_, fun changed hc => ?_⟩
      · rcases hlives with h | ⟨l, h, hu⟩
        · exact LifeStep.same h
        · refine LifeStep.restored entryId l h ?_ hu
          rw [hlife] at h
          cases h
          exact hquar
      · unfold toServer at hc
        generalize restoreWithAudit entryId reason agentId indexed newDataId now c' = r at hrec hc ⊢
        obtain ⟨res, c''⟩ := r
        cases res with
        | error e => cases hc
        | ok ch =>
          cases hc
          obtain ⟨l, l', h, hrest⟩ := hrec _ rfl
          refine ⟨l, l', h, ?_, hrest⟩
          rw [hlife] at h
          cases h
          exact hquar

end Store

/-! ## Calls -/

open Store in
/-- **Every guarded call is one step on the lives**, and it corrects only an entry that had no
successor's status yet. -/
theorem LifecycleOp.exec_lifeStep (sha256 : Digest) (now : Nat) (c : Conn Store StoreError)
    {op : LifecycleOp} (hop : op.Guarded) :
    LifeStep c.db.lives (op.exec sha256 now c).2.lives ∧
      ∀ a, (op.exec sha256 now c).1 = some a →
        ∃ l l', c.db.lives a = some l ∧ l.status ≠ .deprecated ∧ l.status ≠ .quarantined ∧
          (op.exec sha256 now c).2.lives a = some l' ∧ l'.supersededBy.isSome := by
  cases op with
  | insert entry =>
    refine ⟨?_, fun a h => by cases h⟩
    have hs := transaction_settled (insertBody sha256 entry now) c
    simp only [exec, Store.insert]
    generalize transaction (insertBody sha256 entry now) c = r at hs ⊢
    cases hs with
    | failed e => exact LifeStep.same rfl
    | committed id c' h =>
      obtain ⟨hnone, he⟩ := run_insertBody h
      exact LifeStep.created id entry.status (lives_of_lookup_none hnone) hop (lives_insert he)
  | correctEntry originalId correction newDataId dim =>
    have hs := transaction_settled (correctEntryBody sha256 originalId correction newDataId dim now) c
    simp only [exec, Store.correctEntry]
    generalize transaction (correctEntryBody sha256 originalId correction newDataId dim now) c = r
      at hs ⊢
    cases hs with
    | failed e => exact ⟨LifeStep.same rfl, fun a h => by cases h⟩
    | committed r c' h =>
      obtain ⟨row, newId, hl, hdep, hquar, hnew, he⟩ := run_correctEntryBody h
      have hne : originalId ≠ newId := fun heq => by
        rw [heq, hnew] at hl
        cases hl
      let s₁ : Store :=
        { c.db with entries := c.db.entries.insert originalId (deprecatedBy newId now row) }
      have hfirst : s₁.entries = c.db.entries.insert originalId (deprecatedBy newId now row) := rfl
      have hsecond : c'.db.entries = s₁.entries.insert newId _ := he
      have h₁ := lives_insert hfirst
      have h₂ := lives_insert hsecond
      rw [h₁] at h₂
      refine ⟨LifeStep.corrected originalId newId row.life correction.status (lives_of_lookup hl) hdep
        hquar (lives_of_lookup_none hnew) hop h₂, fun a ha => ?_⟩
      cases ha
      refine ⟨row.life, (deprecatedBy newId now row).life, lives_of_lookup hl, hdep, hquar, ?_, rfl⟩
      simp only [h₂, Function.update_of_ne hne, Function.update_self]
  | deprecateWithAudit entryId reason agentId =>
    refine ⟨?_, fun a h => by cases h⟩
    obtain ⟨hlives, -⟩ := changeStatusWithAudit_restatused entryId .deprecated reason agentId false now c
    rcases hlives with h | ⟨l, h, hu⟩
    · exact LifeStep.same h
    · exact LifeStep.deprecated entryId l h hu
  | contextQuarantine entryId action reason agentId =>
    refine ⟨?_, fun a h => by cases h⟩
    cases action with
    | quarantine => exact contextQuarantine_quarantine c
    | restore indexed newDataId => exact (contextQuarantine_restore _ _ _ _ _ _ c).1
  | restoreWithAudit entryId reason agentId indexed newDataId => exact hop.elim

end Unimatrix
