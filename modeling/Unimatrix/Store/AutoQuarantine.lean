import Unimatrix.Store.LifecycleRun
import Unimatrix.Store.QuarantineRace

/-!
# The maintenance tick and the requests on its candidates

`maintenance_tick` reads the Active entries, picks the ones whose effectiveness has been bad for long enough and then,
one store call each, `process_auto_quarantine` writes Quarantined with `update_status`. Between any two of these
calls corrections and the store calls of `context_quarantine` and `context_deprecate` may come.

* `tick` is the snapshot: of the entries it could choose it keeps the Active ones. Which of them the counters choose is
  the event's.
* `update_status` writes no pre-quarantine status, so a restore takes the entry for one that was Active.
* `quarantinedFrom` is not in the program: the status an entry had before the auto-quarantine it is still in.
* The `home` of an entry is its status, or where a restore would take it.

`Outdated` names the steps that act on what is no longer so: an auto-quarantine of a candidate that has left Active, and
an update of a superseded or auto-quarantined entry with a status read before the entry changed.

**`auto_quarantine_restorable`**: if no step is outdated, only Active entries are auto-quarantined, a restore takes each
back to the status it had, and no superseded entry is Active. `corrected_meanwhile` is the run that breaks all three.
-/

namespace Unimatrix

open Txn

/-- The status of an entry, or the one a restore takes it to. -/
def EntryRow.home (row : EntryRow) : Status :=
  if row.status = .quarantined then Store.restoreTo row.preQuarantineStatus else row.status

/-! ## The system -/

/-- The store, the requests that have come in with the entries they are for, and the tick. -/
structure Maintenance where
  store : Store
  requests : List (Nat × StatusCall × StatusPc)
  /-- What is left of `to_quarantine`. -/
  toQuarantine : List Nat
  quarantinedFrom : Nat → Option Status

/-- What happens next. -/
inductive MaintenanceEvent where
  | insert (entry : NewEntry) (now : Nat) (fault : Option (Nat × StoreError))
  | correctEntry (originalId : Nat) (correction : NewEntry) (newDataId : Nat) (embeddingDim : UInt16)
      (now : Nat) (fault : Option (Nat × StoreError))
  | request (entryId : Nat) (call : StatusCall)
  /-- Request `k` makes its next store call. -/
  | turn (k now : Nat) (fault : Option (Nat × StoreError))
  /-- The tick takes its snapshot. Of a tick that timed out nothing is left. -/
  | tick (chosen : List Nat)
  /-- `process_auto_quarantine` writes its next candidate. -/
  | autoQuarantine (now : Nat) (fault : Option (Nat × StoreError))

namespace Maintenance

/-- The system before anything came in. -/
def start (s : Store) : Maintenance := ⟨s, [], [], fun _ => none⟩

/-- The next iteration of `process_auto_quarantine`: a write that fails is logged and skipped. -/
def autoQuarantine (p : Maintenance) (now : Nat) (fault : Option (Nat × StoreError)) : Maintenance :=
  match p.toQuarantine with
  | [] => p
  | id :: rest =>
    match Store.updateStatus id .quarantined now ⟨p.store, fault⟩ with
    | (.ok (), c) =>
      { p with
        store := c.db
        toQuarantine := rest
        quarantinedFrom := Function.update p.quarantinedFrom id
          ((p.store.entries.lookup id).map EntryRow.status) }
    | (.error _, c) => { p with store := c.db, toQuarantine := rest }

/-- The next store call of request `k`. -/
def turn (p : Maintenance) (k now : Nat) (fault : Option (Nat × StoreError)) : Maintenance :=
  match p.requests[k]? with
  | none => p
  | some (entryId, call, pc) =>
    let r := pc.step entryId call now ⟨p.store, fault⟩
    { p with store := r.2.db, requests := p.requests.set k (entryId, call, r.1) }

/-- What an event does to the program. -/
def act (sha256 : Digest) (p : Maintenance) : MaintenanceEvent → Maintenance
  | .insert entry now fault => { p with store := (Store.insert sha256 entry now ⟨p.store, fault⟩).2.db }
  | .correctEntry originalId correction newDataId embeddingDim now fault =>
    { p with store := (Store.correctEntry sha256 originalId correction newDataId embeddingDim now
        ⟨p.store, fault⟩).2.db }
  | .request entryId call => { p with requests := p.requests ++ [(entryId, call, .start)] }
  | .turn k now fault => p.turn k now fault
  | .tick chosen => { p with toQuarantine := chosen.filter (p.store.hasStatus .active) }
  | .autoQuarantine now fault => p.autoQuarantine now fault

/-- An entry that is not Quarantined any more has left its auto-quarantine. -/
def settle (p : Maintenance) : Maintenance :=
  { p with quarantinedFrom := fun id => if p.store.hasStatus .quarantined id then p.quarantinedFrom id else none }

/-- One event. -/
def step (sha256 : Digest) (p : Maintenance) (e : MaintenanceEvent) : Maintenance :=
  (p.act sha256 e).settle

/-- A run on `s`. -/
def run (sha256 : Digest) (s : Store) (events : List MaintenanceEvent) : Maintenance :=
  events.foldl (step sha256) (start s)

end Maintenance

/-! ## Outdated steps -/

/-- The statuses the call's update would take the entry to: the one a restore sets, and the one a quarantine writes
down. -/
def StatusPc.aims : StatusPc → List Status
  | .updating newStatus _ current rest =>
    (if rest.isSome then [newStatus] else []) ++
      (if newStatus = .quarantined then [current.status] else [])
  | _ => []

/-- The step acts on what is no longer so: it quarantines a candidate that has left Active, or it takes an entry
elsewhere than where the entry is now or is to be restored to, and the entry is superseded and would be Active, or is
auto-quarantined. -/
def Outdated (p : Maintenance) : MaintenanceEvent → Prop
  | .autoQuarantine _ _ =>
    ∃ id ∈ p.toQuarantine.head?, ∃ row ∈ p.store.entries.lookup id, row.status ≠ .active
  | .turn k _ _ =>
    ∃ t ∈ p.requests[k]?, ∃ row ∈ p.store.entries.lookup t.1, ∃ st ∈ t.2.2.aims, st ≠ row.home ∧
      ((row.supersededBy.isSome ∧ st = .active) ∨ (p.quarantinedFrom t.1).isSome)
  | _ => False

instance decidableOutdated (p : Maintenance) : (e : MaintenanceEvent) → Decidable (Outdated p e)
  | .autoQuarantine _ _ =>
    inferInstanceAs (Decidable (∃ id ∈ p.toQuarantine.head?, ∃ row ∈ p.store.entries.lookup id,
      row.status ≠ .active))
  | .turn k _ _ =>
    inferInstanceAs (Decidable (∃ t ∈ p.requests[k]?, ∃ row ∈ p.store.entries.lookup t.1,
      ∃ st ∈ t.2.2.aims, st ≠ row.home ∧
        ((row.supersededBy.isSome ∧ st = .active) ∨ (p.quarantinedFrom t.1).isSome)))
  | .insert _ _ _ | .correctEntry _ _ _ _ _ _ | .request _ _ | .tick _ => isFalse id

/-! ## The invariant -/

/-- A row in order, `auto` being the status before the auto-quarantine it is in. -/
structure EntryRow.Orderly (auto : Option Status) (row : EntryRow) : Prop where
  /-- Only a Quarantined entry has a pre-quarantine status. -/
  noted : row.status ≠ .quarantined → row.preQuarantineStatus = none
  superseded : row.supersededBy.isSome → row.home ≠ .active
  auto : ∀ st, auto = some st → row.status = .quarantined ∧ row.home = st

/-- Every row is in order, and none is auto-quarantined. -/
def Store.Orderly (s : Store) : Prop :=
  ∀ id row, s.entries.lookup id = some row → row.Orderly none

theorem Store.empty_orderly : Store.empty.Orderly := fun _ _ h => by cases h

/-- A request that is no restore does not make an entry Active. -/
def StatusPc.Plain : StatusPc → Prop
  | .changing newStatus _ none => newStatus ≠ .active
  | .updating newStatus _ _ none => newStatus ≠ .active
  | _ => True

namespace Maintenance

/-- What holds in every state of a run without outdated steps. -/
structure Orderly (p : Maintenance) : Prop where
  rows : ∀ id row, p.store.entries.lookup id = some row → row.Orderly (p.quarantinedFrom id)
  absent : ∀ id, p.store.entries.lookup id = none → p.quarantinedFrom id = none
  requests : ∀ t ∈ p.requests, t.2.2.Plain

theorem start_orderly {s : Store} (h : s.Orderly) : (start s).Orderly where
  rows := h
  absent := fun _ _ => rfl
  requests := fun _ ht => absurd ht List.not_mem_nil

end Maintenance

/-! ### What the store calls do to the rows -/

/-- A row in order for `auto` is in order without. -/
theorem EntryRow.Orderly.left {auto : Option Status} {row : EntryRow} (h : row.Orderly auto) :
    row.Orderly none := ⟨h.noted, h.superseded, fun _ h => by cases h⟩

theorem EntryRow.orderly_of_plain {row : EntryRow} (hq : row.status ≠ .quarantined)
    (hpre : row.preQuarantineStatus = none)
    (hs : row.supersededBy.isSome → row.status ≠ .active) : row.Orderly none where
  noted := fun _ => hpre
  superseded := fun h => by
    unfold home
    rw [if_neg hq]
    exact hs h
  auto := fun _ h => by cases h

/-- A new row is in order, whatever its status. -/
theorem EntryRow.orderly_of_new {row : EntryRow} (hpre : row.preQuarantineStatus = none)
    (hs : row.supersededBy = none) : row.Orderly none where
  noted := fun _ => hpre
  superseded := fun h => by
    rw [hs] at h
    cases h
  auto := fun _ h => by cases h

/-- `update_status` fails and changes nothing, or rewrites the row it found. -/
theorem Store.updateStatus_cases (entryId : Nat) (newStatus : Status) (now : Nat)
    (c : Conn Store StoreError) :
    ((updateStatus entryId newStatus now c).2.db = c.db ∧
      ∃ e, (updateStatus entryId newStatus now c).1 = .error e) ∨
    ∃ row, c.db.entries.lookup entryId = some row ∧
      (updateStatus entryId newStatus now c).1 = .ok () ∧
      (updateStatus entryId newStatus now c).2.db.entries =
        c.db.entries.insert entryId { row with status := newStatus, updatedAt := now } := by
  have hs := transaction_settled (updateStatusBody entryId newStatus now) c
  unfold updateStatus
  generalize transaction (updateStatusBody entryId newStatus now) c = r at hs ⊢
  cases hs with
  | failed e => exact .inl ⟨rfl, e, rfl⟩
  | committed u c' h =>
    obtain ⟨row, s₁, hf, h⟩ := Run.bind h
    obtain ⟨_, s₂, hu, hm⟩ := Run.bind h
    obtain ⟨hl, hs₁⟩ := run_fetchRow hf
    rw [hs₁] at hu
    exact .inr ⟨row, hl, rfl, by rw [run_moveStatus hm, Run.update hu, setRow_of_some hl]⟩

/-- The row an update of a request leaves. -/
def StatusPc.updated (newStatus : Status) (current : EntryRecord) (setModifiedBy : Option String)
    (now : Nat) (row : EntryRow) : EntryRow :=
  Store.extendedStatus newStatus setModifiedBy
    (if newStatus = .quarantined then some current.status.toU8 else none) now row

theorem StatusPc.reading_entries (entryId : Nat) (next : EntryRecord → StatusPc)
    (c : Conn Store StoreError) :
    (reading entryId next c).2.db = c.db ∧
      ((∃ entry, (reading entryId next c).1 = next entry) ∨
        ∃ r, (reading entryId next c).1 = .done r) := by
  obtain ⟨hdb, -⟩ := Store.get_read entryId c
  unfold reading
  generalize Store.get entryId c = g at hdb ⊢
  obtain ⟨(e | entry), c'⟩ := g
  · exact ⟨hdb, .inr ⟨_, rfl⟩⟩
  · exact ⟨hdb, .inl ⟨entry, rfl⟩⟩

/-- **Only the update of a request changes an entry.** -/
theorem StatusPc.step_entries (entryId : Nat) (call : StatusCall) (now : Nat)
    (c : Conn Store StoreError) (pc : StatusPc) :
    (pc.step entryId call now c).2.db.entries = c.db.entries ∨
      ∃ newStatus setModifiedBy current rest row by_,
        pc = .updating newStatus setModifiedBy current rest ∧
        c.db.entries.lookup entryId = some row ∧
        (pc.step entryId call now c).2.db.entries =
          c.db.entries.insert entryId (updated newStatus current by_ now row) := by
  have read : ∀ next, (reading entryId next c).2.db.entries = c.db.entries := fun next =>
    congrArg Store.entries (reading_entries entryId next c).1
  cases pc with
  | start => exact .inl (read _)
  | restoring indexed newDataId => exact .inl (read _)
  | changing newStatus setModifiedBy rest => exact .inl (read _)
  | updating newStatus setModifiedBy current rest =>
    have hcases := Store.applyStatus_cases entryId newStatus call.reason call.agentId setModifiedBy
      now current c
    simp only [step]
    generalize Store.applyStatus entryId newStatus call.reason call.agentId setModifiedBy now current
      c = r at hcases ⊢
    obtain ⟨(e | ch), c'⟩ := r
    · refine hcases.imp (fun h => congrArg Store.entries h.1) ?_
      rintro ⟨row, hl, he, -⟩
      exact ⟨_, _, _, _, row, _, rfl, hl, he⟩
    · refine hcases.imp (fun h => congrArg Store.entries h.1) ?_
      rintro ⟨row, hl, he, -⟩
      exact ⟨_, _, _, _, row, _, rfl, hl, he⟩
  | mapping ch newDataId =>
    left
    have hs : Settled _ c (attempt (Txn.query fun s : Store => s.vectorMap.lookup entryId) c) :=
      attempt_settled _ c
    simp only [step]
    generalize attempt (Txn.query fun s : Store => s.vectorMap.lookup entryId) c = r at hs ⊢
    cases hs with
    | failed e => rfl
    | committed o c' h =>
      have hc' : c'.db = c.db := h.query.2
      cases o <;> exact congrArg Store.entries hc'
  | putting ch dataId =>
    left
    have hp : Settled _ c (Store.putVectorMapping entryId dataId c) := attempt_settled _ c
    simp only [step]
    generalize Store.putVectorMapping entryId dataId c = q at hp ⊢
    cases hp with
    | failed e => rfl
    | committed _ c' h => exact (Store.run_putVector h).1
  | done result => exact .inl rfl

theorem StatusPc.changed_plain (ch : Store.Changed) (rest : Rest) : (changed ch rest).Plain := by
  unfold changed
  split
  · trivial
  · split <;> trivial

theorem StatusPc.dispatch_plain (entry : EntryRecord) (r : StatusRequest) :
    (dispatch entry r).Plain := by
  unfold dispatch
  split
  · split
    · trivial
    · exact fun h => by cases h
  · split <;> trivial
  · split
    · trivial
    · exact fun h => by cases h

theorem StatusPc.update_plain {newStatus : Status} {setModifiedBy : Bool} {rest : Rest}
    (current : EntryRecord) (h : (changing newStatus setModifiedBy rest).Plain) :
    (update newStatus setModifiedBy rest current).Plain := by
  unfold update
  split
  · exact changed_plain _ rest
  · cases rest with
    | none => exact h
    | some p => trivial

theorem StatusPc.step_plain (entryId : Nat) (call : StatusCall) (now : Nat)
    (c : Conn Store StoreError) {pc : StatusPc} (h : pc.Plain) :
    (pc.step entryId call now c).1.Plain := by
  have read : ∀ next : EntryRecord → StatusPc, (∀ entry, (next entry).Plain) →
      (reading entryId next c).1.Plain := by
    intro next hnext
    rcases (reading_entries entryId next c).2 with ⟨entry, he⟩ | ⟨r, he⟩
    · rw [he]
      exact hnext entry
    · rw [he]
      trivial
  cases pc with
  | start => exact read _ fun entry => dispatch_plain entry call.request
  | restoring indexed newDataId => exact read _ fun _ => trivial
  | changing newStatus setModifiedBy rest => exact read _ fun current => update_plain current h
  | updating newStatus setModifiedBy current rest =>
    simp only [step]
    generalize Store.applyStatus entryId newStatus call.reason call.agentId setModifiedBy now current
      c = r
    obtain ⟨(e | ch), c'⟩ := r
    · trivial
    · exact changed_plain ch rest
  | mapping ch newDataId =>
    simp only [step]
    generalize attempt (Txn.query fun s : Store => s.vectorMap.lookup entryId) c = r
    obtain ⟨(e | _ | d), c'⟩ := r
    · trivial
    · cases newDataId <;> trivial
    · trivial
  | putting ch dataId => trivial
  | done result => trivial

/-! ### What an event keeps -/

namespace Maintenance

/-- The invariant of the state an event leaves, row by row. -/
theorem orderly_settle {q : Maintenance}
    (rows : ∀ id row, q.store.entries.lookup id = some row →
      row.Orderly (if row.status = .quarantined then q.quarantinedFrom id else none))
    (requests : ∀ t ∈ q.requests, t.2.2.Plain) :
    q.settle.Orderly where
  rows := fun id row hl => by
    have h := rows id row hl
    have hq := Store.hasStatus_of_lookup (s := q.store) hl .quarantined
    simp only [settle, hq, decide_eq_true_eq]
    exact h
  absent := fun id hl => by
    have hq : q.store.hasStatus .quarantined id = false := by
      unfold Store.hasStatus
      rw [show q.store.entries.lookup id = none from hl]
      rfl
    simp only [settle, hq, Bool.false_eq_true, if_false]
  requests := requests

/-- A row in order stays so when its ghost is kept or dropped. -/
theorem orderly_ite {row : EntryRow} (auto : Option Status) (h : row.Orderly auto) :
    row.Orderly (if row.status = .quarantined then auto else none) := by
  split
  · exact h
  · exact h.left

theorem Orderly.rows_ite {p : Maintenance} (h : p.Orderly) {id : Nat} {row : EntryRow}
    (hl : p.store.entries.lookup id = some row) :
    row.Orderly (if row.status = .quarantined then p.quarantinedFrom id else none) :=
  orderly_ite _ (h.rows id row hl)

theorem Orderly.insert {p : Maintenance} (h : p.Orderly) (sha256 : Digest) (entry : NewEntry)
    (now : Nat) (fault : Option (Nat × StoreError)) :
    (p.step sha256 (.insert entry now fault)).Orderly := by
  have hs := transaction_settled (Store.insertBody sha256 entry now) ⟨p.store, fault⟩
  refine orderly_settle (fun id row hl => ?_) h.requests
  simp only [act, Store.insert] at hl
  generalize transaction (Store.insertBody sha256 entry now) ⟨p.store, fault⟩ = r at hs hl
  cases hs with
  | failed e => exact h.rows_ite hl
  | committed newId c' hrun =>
    obtain ⟨hnone, he⟩ := Store.run_insertBody hrun
    simp only [he] at hl
    rw [HashMap.lookup_insert_eq] at hl
    split at hl
    · rename_i hid
      cases hl
      have hghost : p.quarantinedFrom id = none := h.absent id (hid ▸ hnone)
      refine orderly_ite (p.quarantinedFrom id) ?_
      rw [hghost]
      exact EntryRow.orderly_of_new rfl rfl
    · exact h.rows_ite hl

theorem Orderly.correctEntry {p : Maintenance} (h : p.Orderly) (sha256 : Digest) (originalId : Nat)
    (correction : NewEntry) (newDataId : Nat) (dim : UInt16) (now : Nat)
    (fault : Option (Nat × StoreError)) :
    (p.step sha256 (.correctEntry originalId correction newDataId dim now fault)).Orderly := by
  have hs := transaction_settled (Store.correctEntryBody sha256 originalId correction newDataId dim now)
    ⟨p.store, fault⟩
  refine orderly_settle (fun id row hl => ?_) h.requests
  simp only [act, Store.correctEntry] at hl
  generalize transaction (Store.correctEntryBody sha256 originalId correction newDataId dim now)
    ⟨p.store, fault⟩ = r at hs hl
  cases hs with
  | failed e => exact h.rows_ite hl
  | committed q c' hrun =>
    obtain ⟨old, newId, hold, -, hquar, hnone, he⟩ := Store.run_correctEntryBody hrun
    simp only [he] at hl
    rw [HashMap.lookup_insert_eq, HashMap.lookup_insert_eq] at hl
    split at hl
    · rename_i hid
      cases hl
      have hghost : p.quarantinedFrom id = none := h.absent id (hid ▸ hnone)
      refine orderly_ite (p.quarantinedFrom id) ?_
      rw [hghost]
      exact EntryRow.orderly_of_new rfl rfl
    · split at hl
      · cases hl
        have hpre : old.preQuarantineStatus = none := (h.rows originalId old hold).noted hquar
        rw [if_neg (by simp [Store.deprecatedBy])]
        exact EntryRow.orderly_of_plain (by simp [Store.deprecatedBy]) hpre
          fun _ => by simp [Store.deprecatedBy]
      · exact h.rows_ite hl

/-- An update that is not outdated leaves the row in order. -/
theorem updated_orderly {auto : Option Status} {row : EntryRow} (h : row.Orderly auto)
    {newStatus : Status} {setModifiedBy : Bool} {current : EntryRecord} {rest : Rest}
    (hplain : (StatusPc.updating newStatus setModifiedBy current rest).Plain)
    (hnot : ∀ st ∈ (StatusPc.updating newStatus setModifiedBy current rest).aims, st ≠ row.home →
      ¬ ((row.supersededBy.isSome ∧ st = .active) ∨ auto.isSome)) (by_ : Option String) (now : Nat) :
    (StatusPc.updated newStatus current by_ now row).Orderly
      (if newStatus = .quarantined then auto else none) := by
  by_cases hq : newStatus = .quarantined
  · subst hq
    have haim : current.status ∈ (StatusPc.updating .quarantined setModifiedBy current rest).aims :=
      List.mem_append_right _ (List.mem_singleton.mpr rfl)
    have hhome : (StatusPc.updated .quarantined current by_ now row).home = current.status := by
      simp [StatusPc.updated, EntryRow.home, Store.extendedStatus, Store.restoreTo]
    rw [if_pos rfl]
    refine ⟨fun hne => absurd rfl hne, fun hs => ?_, fun st hst => ⟨rfl, ?_⟩⟩
    · rw [hhome]
      intro hact
      have hne : current.status ≠ row.home := fun heq => h.superseded hs (heq ▸ hact)
      exact hnot _ haim hne (.inl ⟨hs, hact⟩)
    · rw [hhome]
      by_contra hne
      have hrow := (h.auto st hst).2
      exact hnot _ haim (fun heq => hne (heq.trans hrow)) (.inr (by rw [hst]; rfl))
  · rw [if_neg hq]
    refine EntryRow.orderly_of_plain hq ?_ fun hs hact => ?_
    · simp [StatusPc.updated, Store.extendedStatus, hq]
    · have hact' : newStatus = .active := hact
      cases rest with
      | none => exact hplain hact'
      | some r =>
        have haim : newStatus ∈ (StatusPc.updating newStatus setModifiedBy current (some r)).aims :=
          List.mem_append_left _ (List.mem_singleton.mpr rfl)
        have hne : newStatus ≠ row.home := fun heq => h.superseded hs (heq ▸ hact')
        exact hnot _ haim hne (.inl ⟨hs, hact'⟩)

theorem Orderly.turn {p : Maintenance} (h : p.Orderly) (sha256 : Digest) {k now : Nat}
    {fault : Option (Nat × StoreError)} (hnot : ¬ Outdated p (.turn k now fault)) :
    (p.step sha256 (.turn k now fault)).Orderly := by
  show (p.turn k now fault).settle.Orderly
  unfold Maintenance.turn
  cases hk : p.requests[k]? with
  | none => exact orderly_settle (fun _ _ => h.rows_ite) h.requests
  | some t =>
    obtain ⟨entryId, call, pc⟩ := t
    have hplain : pc.Plain := h.requests _ (List.mem_of_getElem? hk)
    refine orderly_settle (fun id row hl => ?_) fun t ht => ?_
    · rcases pc.step_entries entryId call now ⟨p.store, fault⟩ with
        he | ⟨newStatus, setModifiedBy, current, rest, old, by_, hpc, hold, he⟩
      · simp only [he] at hl
        exact h.rows_ite hl
      · simp only [he] at hl
        rw [HashMap.lookup_insert_eq] at hl
        split at hl
        · rename_i hid
          cases hl
          subst hid hpc
          exact updated_orderly (h.rows id old hold) hplain
            (fun st hst hne hbad => hnot ⟨_, hk, old, hold, st, hst, hne, hbad⟩) by_ now
        · exact h.rows_ite hl
    · rcases List.mem_or_eq_of_mem_set ht with ht | rfl
      · exact h.requests t ht
      · exact pc.step_plain entryId call now _ hplain

/-- An auto-quarantined Active row is in order, with Active to go back to. -/
theorem autoQuarantined_orderly {auto : Option Status} {row : EntryRow} (h : row.Orderly auto)
    (hact : row.status = .active) (now : Nat) :
    EntryRow.Orderly (some row.status) { row with status := .quarantined, updatedAt := now } := by
  have hq : row.status ≠ .quarantined := by
    rw [hact]
    exact fun h => by cases h
  have hhome : row.home = .active := by
    unfold EntryRow.home
    rw [if_neg hq, hact]
  refine ⟨fun hne => absurd rfl hne, fun hs => absurd hhome (h.superseded hs), fun st hst => ⟨rfl, ?_⟩⟩
  cases hst
  simp [EntryRow.home, h.noted hq, Store.restoreTo, hact]

theorem Orderly.autoQuarantine {p : Maintenance} (h : p.Orderly) (sha256 : Digest) {now : Nat}
    {fault : Option (Nat × StoreError)} (hnot : ¬ Outdated p (.autoQuarantine now fault)) :
    (p.step sha256 (.autoQuarantine now fault)).Orderly := by
  show (p.autoQuarantine now fault).settle.Orderly
  unfold Maintenance.autoQuarantine
  cases hq : p.toQuarantine with
  | nil => exact orderly_settle (fun _ _ => h.rows_ite) h.requests
  | cons id rest =>
    have hcases := Store.updateStatus_cases id .quarantined now ⟨p.store, fault⟩
    dsimp only
    generalize Store.updateStatus id .quarantined now ⟨p.store, fault⟩ = r at hcases ⊢
    obtain ⟨(e | u), c⟩ := r
    · refine orderly_settle (fun id' row hl => ?_) h.requests
      rcases hcases with ⟨hdb, -⟩ | ⟨row', -, hok, -⟩
      · have hdb' : c.db = p.store := hdb
        simp only [hdb'] at hl
        exact h.rows_ite hl
      · cases hok
    · refine orderly_settle (fun id' row hl => ?_) h.requests
      rcases hcases with ⟨-, e, he⟩ | ⟨old, hold, -, he⟩
      · cases he
      · have he' : c.db.entries = p.store.entries.insert id
            { old with status := .quarantined, updatedAt := now } := he
        have hact : old.status = .active := by
          by_contra hne
          exact hnot ⟨id, by rw [hq]; rfl, old, hold, hne⟩
        have hold' : p.store.entries.lookup id = some old := hold
        simp only [he'] at hl
        rw [HashMap.lookup_insert_eq] at hl
        split at hl
        · rename_i hid
          cases hl
          rw [hid]
          simp only [Function.update_self, hold', Option.map_some, if_true]
          exact autoQuarantined_orderly (h.rows id old hold) hact now
        · rename_i hid
          simp only [Function.update_of_ne hid]
          exact h.rows_ite hl

/-- **A step that is not outdated keeps the invariant.** -/
theorem Orderly.step {p : Maintenance} (h : p.Orderly) (sha256 : Digest) {e : MaintenanceEvent}
    (hnot : ¬ Outdated p e) : (p.step sha256 e).Orderly := by
  cases e with
  | insert entry now fault => exact h.insert sha256 entry now fault
  | correctEntry originalId correction newDataId dim now fault =>
    exact h.correctEntry sha256 originalId correction newDataId dim now fault
  | request entryId call =>
    refine orderly_settle (fun _ _ => h.rows_ite) fun t ht => ?_
    rcases List.mem_append.mp ht with ht | ht
    · exact h.requests t ht
    · rw [List.mem_singleton.mp ht]
      trivial
  | turn k now fault => exact h.turn sha256 hnot
  | tick chosen => exact orderly_settle (fun _ _ => h.rows_ite) h.requests
  | autoQuarantine now fault => exact h.autoQuarantine sha256 hnot

/-! ### What the invariant gives -/

theorem Orderly.not_active {p : Maintenance} (h : p.Orderly) {id : Nat} {row : EntryRow}
    (hl : p.store.entries.lookup id = some row) (hs : row.supersededBy.isSome) :
    row.status ≠ .active := by
  intro hact
  refine (h.rows id row hl).superseded hs ?_
  unfold EntryRow.home
  rw [if_neg (by rw [hact]; exact fun h => by cases h), hact]

/-- An auto-quarantine that is not outdated changes an Active entry only. -/
theorem autoQuarantine_changes {p : Maintenance} (sha256 : Digest) {now : Nat}
    {fault : Option (Nat × StoreError)} (hnot : ¬ Outdated p (.autoQuarantine now fault)) {id : Nat}
    (hne : (p.step sha256 (.autoQuarantine now fault)).store.entries.lookup id ≠
      p.store.entries.lookup id) :
    ∃ row, p.store.entries.lookup id = some row ∧ row.status = .active := by
  by_contra hcon
  refine hne ?_
  show (p.autoQuarantine now fault).store.entries.lookup id = _
  unfold Maintenance.autoQuarantine
  cases hq : p.toQuarantine with
  | nil => rfl
  | cons next rest =>
    have hcases := Store.updateStatus_cases next .quarantined now ⟨p.store, fault⟩
    have hentries : (Store.updateStatus next .quarantined now ⟨p.store, fault⟩).2.db.entries.lookup id =
        p.store.entries.lookup id := by
      rcases hcases with ⟨hdb, -⟩ | ⟨old, hold, -, he⟩
      · rw [hdb]
      · have hact : old.status = .active := by
          by_contra hold'
          exact hnot ⟨next, by rw [hq]; rfl, old, hold, hold'⟩
        have hid : id ≠ next := fun heq => hcon ⟨old, heq ▸ hold, hact⟩
        rw [he, HashMap.lookup_insert_eq, if_neg hid]
    dsimp only
    generalize Store.updateStatus next .quarantined now ⟨p.store, fault⟩ = r at hentries ⊢
    obtain ⟨(e | u), c⟩ := r <;> exact hentries

/-- A restore of an auto-quarantined entry that is not outdated sets the status the entry had. -/
theorem Orderly.turn_restores {p : Maintenance} (h : p.Orderly) (sha256 : Digest) {k now : Nat}
    {fault : Option (Nat × StoreError)} {t : Nat × StatusCall × StatusPc}
    (hk : p.requests[k]? = some t) (hr : t.2.2.Restores) {st : Status}
    (hauto : p.quarantinedFrom t.1 = some st) (hnot : ¬ Outdated p (.turn k now fault)) :
    (p.step sha256 (.turn k now fault)).store.entries.lookup t.1 = p.store.entries.lookup t.1 ∨
      ∃ row, (p.step sha256 (.turn k now fault)).store.entries.lookup t.1 = some row ∧
        row.status = st := by
  obtain ⟨entryId, call, pc⟩ := t
  show (p.turn k now fault).store.entries.lookup entryId = _ ∨
    ∃ row, (p.turn k now fault).store.entries.lookup entryId = some row ∧ _
  unfold Maintenance.turn
  rw [hk]
  rcases pc.step_entries entryId call now ⟨p.store, fault⟩ with
    he | ⟨newStatus, setModifiedBy, current, rest, old, by_, hpc, hold, he⟩
  · exact .inl (congrArg (fun m => m.lookup entryId) he)
  · refine .inr ⟨StatusPc.updated newStatus current by_ now old, ?_, ?_⟩
    · simp only [he]
      rw [HashMap.lookup_insert_eq, if_pos rfl]
    · show newStatus = st
      subst hpc
      have haim : newStatus ∈ (StatusPc.updating newStatus setModifiedBy current rest).aims := by
        refine List.mem_append_left _ ?_
        rw [if_pos (show rest.isSome from hr)]
        exact List.mem_singleton.mpr rfl
      have hhome : old.home = st := ((h.rows entryId old hold).auto st hauto).2
      by_contra hne
      exact hnot ⟨_, hk, old, hold, newStatus, haim, fun heq => hne (heq.trans hhome),
        .inr (by rw [hauto]; rfl)⟩

/-- A restore that runs alone takes an auto-quarantined entry back to the status it had. -/
theorem Orderly.restored {p : Maintenance} (h : p.Orderly) {id : Nat} {st : Status}
    (hauto : p.quarantinedFrom id = some st) (indexed : Bool) (newDataId : Option Nat)
    (reason : Option String) (agentId : String) (now : Nat) (fault : Option (Nat × StoreError))
    {changed : Store.Changed}
    (hret : (Store.contextQuarantine id (.restore indexed newDataId) reason agentId now
      ⟨p.store, fault⟩).1 = .ok changed) :
    changed.record.status = st ∧
      ∀ row, (Store.contextQuarantine id (.restore indexed newDataId) reason agentId now
        ⟨p.store, fault⟩).2.db.entries.lookup id = some row → row.status = st := by
  obtain ⟨l, l', hl, hq, hrec, hl', hst⟩ :=
    (Store.contextQuarantine_restore id indexed newDataId reason agentId now ⟨p.store, fault⟩).2
      changed hret
  obtain ⟨row, hlook, rfl⟩ := Store.lives_eq_some.mp hl
  have hhome : Store.restoreTo row.life.preQ = st := by
    have hrow := ((h.rows id row hlook).auto st hauto).2
    unfold EntryRow.home at hrow
    rwa [if_pos (show row.status = .quarantined from hq)] at hrow
  refine ⟨by rw [hrec, hhome], fun row' hlook' => ?_⟩
  have hlife := Store.lives_of_lookup hlook'
  rw [hl'] at hlife
  cases hlife
  show row'.life.status = st
  rw [hst, hhome]

end Maintenance

/-- **Where no step is outdated, auto-quarantine can be undone.** The tick's writes change Active entries only, no
superseded entry is Active, and a restore, when its update comes in a race or when it runs alone, takes an
auto-quarantined entry back to the status it had before the write. -/
theorem auto_quarantine_restorable (sha256 : Digest) (s : Store) (hs : s.Orderly)
    (events : List MaintenanceEvent)
    (hrun : Runs.Throughout (Maintenance.step sha256) (fun p e => ¬ Outdated p e)
      (Maintenance.start s) events) :
    let p := Maintenance.run sha256 s events
    (∀ now fault, ¬ Outdated p (.autoQuarantine now fault) → ∀ id,
      (p.step sha256 (.autoQuarantine now fault)).store.entries.lookup id ≠
        p.store.entries.lookup id →
      ∃ row, p.store.entries.lookup id = some row ∧ row.status = .active) ∧
    (∀ id row, p.store.entries.lookup id = some row → row.supersededBy.isSome →
      row.status ≠ .active) ∧
    (∀ k now fault, ¬ Outdated p (.turn k now fault) → ∀ t st, p.requests[k]? = some t →
      t.2.2.Restores → p.quarantinedFrom t.1 = some st →
      (p.step sha256 (.turn k now fault)).store.entries.lookup t.1 = p.store.entries.lookup t.1 ∨
        ∃ row, (p.step sha256 (.turn k now fault)).store.entries.lookup t.1 = some row ∧
          row.status = st) ∧
    ∀ id st, p.quarantinedFrom id = some st →
      ∀ indexed newDataId reason agentId now fault changed,
        (Store.contextQuarantine id (.restore indexed newDataId) reason agentId now
          ⟨p.store, fault⟩).1 = .ok changed →
        changed.record.status = st ∧
          ∀ row, (Store.contextQuarantine id (.restore indexed newDataId) reason agentId now
            ⟨p.store, fault⟩).2.db.entries.lookup id = some row → row.status = st := by
  intro p
  have h : p.Orderly := hrun.invariant (fun q e hq hnot => hq.step sha256 hnot)
    (Maintenance.start_orderly hs)
  refine ⟨fun now fault hnot id => Maintenance.autoQuarantine_changes sha256 hnot,
    fun id row => h.not_active, fun k now fault hnot t st hk hr hauto =>
      h.turn_restores sha256 hk hr hauto hnot, ?_⟩
  exact fun id st hauto indexed newDataId reason agentId now fault changed =>
    h.restored hauto indexed newDataId reason agentId now fault

open Lifecycle (lesson flatDigest)

/-- A restore of entry 1. -/
def restoreFirst : StatusCall := ⟨.quarantine (.restore true none), none, "admin"⟩

/-- An entry is stored, auto-quarantined and restored. -/
def restoredAfterTick : List MaintenanceEvent :=
  [.insert (lesson .active) 0 none, .tick [1], .autoQuarantine 1 none, .request 1 restoreFirst,
    .turn 0 2 none, .turn 0 2 none, .turn 0 2 none, .turn 0 2 none]

theorem auto_quarantine_restorable_afterTick :
    ((Maintenance.run flatDigest .empty restoredAfterTick).store.entries.lookup 1).map
        EntryRow.status = some .active ∧
      ∀ id row, (Maintenance.run flatDigest .empty restoredAfterTick).store.entries.lookup id =
        some row → row.supersededBy.isSome → row.status ≠ .active :=
  ⟨by decide +kernel,
    (auto_quarantine_restorable flatDigest .empty Store.empty_orderly restoredAfterTick
      (by decide +kernel)).2.1⟩

/-- An entry is corrected between the snapshot and the tick's write, and restored afterwards. -/
def correctedMeanwhile : List MaintenanceEvent :=
  [.insert (lesson .active) 0 none, .tick [1], .correctEntry 1 (lesson .active) 0 0 1 none,
    .autoQuarantine 2 none, .request 1 restoreFirst, .turn 0 3 none, .turn 0 3 none, .turn 0 3 none,
    .turn 0 3 none]

/-- The write changes a Deprecated entry, and the restore takes it to Active while it is superseded. -/
theorem corrected_meanwhile :
    let before := Maintenance.run flatDigest .empty (correctedMeanwhile.take 3)
    let after := Maintenance.run flatDigest .empty (correctedMeanwhile.take 4)
    let restored := Maintenance.run flatDigest .empty correctedMeanwhile
    (before.store.entries.lookup 1).map EntryRow.status = some .deprecated ∧
      (after.store.entries.lookup 1).map EntryRow.status = some .quarantined ∧
      after.quarantinedFrom 1 = some .deprecated ∧
      (restored.store.entries.lookup 1).map (fun row => (row.status, row.supersededBy)) =
        some (.active, some 2) := by
  decide +kernel

end Unimatrix
