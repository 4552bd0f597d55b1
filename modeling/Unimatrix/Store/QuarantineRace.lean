import Unimatrix.Lib.Runs
import Unimatrix.Store.Lifecycle
import Unimatrix.Store.Lineage

/-!
# Status changes of one entry that race

Any number of `context_quarantine` (quarantine or restore) and `context_deprecate` calls work on one entry. Each
store call they make is one step, and between two steps of one call any step of another one may come: the handler
reads the entry and checks its status, `restore_with_audit` reads it again for the status to go back to,
`change_status_with_audit` reads it once more for the status it writes down, and only then the update runs.

* `task_quarantine_alone`, `task_deprecate_alone`: a call that is not disturbed computes what the handler computes.
* `Unmarked`: the entry has not got Quarantined written down as the status before its quarantine.
* `Overtaken`: the step at which a quarantine past the handler's check reads an entry that is Quarantined by now.
* **`unmarked_of_not_overtaken`**: if no step is overtaken, the entry stays unmarked, no restore ever sets the
  status to Quarantined, and a restore that runs then ends in another status.

`overtaken_marks` is the other direction for one call, `quarantined_twice` a schedule of two quarantines after which
a restore leaves the entry Quarantined. The edges `context_deprecate` deletes afterwards are not part of the entry.
-/

namespace Unimatrix

open Txn

namespace Store

/-- `context_deprecate`, up to the deletion of the entry's edges. -/
def contextDeprecate (entryId : Nat) (reason : Option String) (agentId : String) (now : Nat)
    (c : Conn Store StoreError) : Except ServerError Changed × Conn Store StoreError :=
  match get entryId c with
  | (.error e, c') => (.error (.core e), c')
  | (.ok entry, c') =>
    if entry.status = .deprecated then (.ok ⟨entry, none⟩, c')
    else toServer (deprecateWithAudit entryId reason agentId now c')

end Store

/-! ## One call -/

/-- A request on the entry. -/
inductive StatusRequest where
  | quarantine (action : Store.QuarantineAction)
  | deprecate

/-- A call: what it asks for, and what it logs. -/
structure StatusCall where
  request : StatusRequest
  reason : Option String
  agentId : String

/-- What is left to do after the status change: a restore goes on to the vector index, and carries what it will
find there. -/
abbrev Rest : Type := Option (Bool × Option Nat)

/-- Where a call is. -/
inductive StatusPc where
  /-- The handler reads the entry. -/
  | start
  /-- `restore_with_audit` reads the entry. -/
  | restoring (indexed : Bool) (newDataId : Option Nat)
  /-- `change_status_with_audit` reads the entry. -/
  | changing (newStatus : Status) (setModifiedBy : Bool) (rest : Rest)
  /-- `change_status_with_audit` updates the entry it has read as `current`. -/
  | updating (newStatus : Status) (setModifiedBy : Bool) (current : EntryRecord) (rest : Rest)
  /-- `restore_with_audit` looks for the vector of the entry. -/
  | mapping (changed : Store.Changed) (newDataId : Option Nat)
  /-- `restore_with_audit` gives the entry a vector. -/
  | putting (changed : Store.Changed) (dataId : Nat)
  | done (result : Except ServerError Store.Changed)

namespace StatusPc

/-- The handler goes on with the entry it has read. -/
def dispatch (entry : EntryRecord) : StatusRequest → StatusPc
  | .quarantine .quarantine =>
    if entry.status = .quarantined then .done (.ok ⟨entry, none⟩)
    else .changing .quarantined true none
  | .quarantine (.restore indexed newDataId) =>
    if entry.status ≠ .quarantined then
      .done (.error (.invalidInput "id" "entry is not quarantined"))
    else .restoring indexed newDataId
  | .deprecate =>
    if entry.status = .deprecated then .done (.ok ⟨entry, none⟩)
    else .changing .deprecated false none

/-- What follows a status change that returned. -/
def changed (ch : Store.Changed) : Rest → StatusPc
  | none => .done (.ok ch)
  | some (indexed, newDataId) =>
    if 0 < ch.record.embeddingDim ∧ !indexed then .mapping ch newDataId else .done (.ok ch)

/-- `change_status_with_audit` goes on with the entry it has read. -/
def update (newStatus : Status) (setModifiedBy : Bool) (rest : Rest) (current : EntryRecord) :
    StatusPc :=
  if newStatus = .deprecated ∧ current.status = .deprecated then changed ⟨current, none⟩ rest
  else .updating newStatus setModifiedBy current rest

/-- A read of the entry, and what the call does with it. -/
def reading (entryId : Nat) (next : EntryRecord → StatusPc) (c : Conn Store StoreError) :
    StatusPc × Conn Store StoreError :=
  match Store.get entryId c with
  | (.error e, c') => (.done (.error (.core e)), c')
  | (.ok entry, c') => (next entry, c')

/-- The next store call of a call. -/
def step (entryId : Nat) (call : StatusCall) (now : Nat) (c : Conn Store StoreError) :
    StatusPc → StatusPc × Conn Store StoreError
  | .start => reading entryId (fun entry => dispatch entry call.request) c
  | .restoring indexed newDataId =>
    reading entryId
      (fun entry => .changing (Store.restoreTo entry.preQuarantineStatus) true
        (some (indexed, newDataId))) c
  | .changing newStatus setModifiedBy rest =>
    reading entryId (update newStatus setModifiedBy rest) c
  | .updating newStatus setModifiedBy current rest =>
    match Store.applyStatus entryId newStatus call.reason call.agentId setModifiedBy now current c with
    | (.error e, c') => (.done (.error (.core e)), c')
    | (.ok ch, c') => (changed ch rest, c')
  | .mapping ch newDataId =>
    match attempt (Txn.query fun s : Store => s.vectorMap.lookup entryId) c with
    | (.error e, c') => (.done (.error (.core e)), c')
    | (.ok (some _), c') => (.done (.ok ch), c')
    | (.ok none, c') => (newDataId.elim (.done (.ok ch)) (.putting ch), c')
  | .putting ch dataId => (.done (.ok ch), (Store.putVectorMapping entryId dataId c).2)
  | .done result => (.done result, c)

end StatusPc

/-! ## A call that runs alone -/

section Alone

variable (entryId : Nat) (call : StatusCall) (now : Nat)

/-- The call takes one step after the other and ends with what `r` returns. -/
def EndsAlone (x : StatusPc × Conn Store StoreError)
    (r : Except ServerError Store.Changed × Conn Store StoreError) : Prop :=
  ∃ n, (fun x => StatusPc.step entryId call now x.2 x.1)^[n] x = (.done r.1, r.2)

variable {entryId call now}

theorem EndsAlone.done {r : Except ServerError Store.Changed} {c : Conn Store StoreError} :
    EndsAlone entryId call now (.done r, c) (r, c) := ⟨0, rfl⟩

theorem EndsAlone.step {pc : StatusPc} {c : Conn Store StoreError}
    {r : Except ServerError Store.Changed × Conn Store StoreError}
    (h : EndsAlone entryId call now (StatusPc.step entryId call now c pc) r) :
    EndsAlone entryId call now (pc, c) r := by
  obtain ⟨n, hn⟩ := h
  exact ⟨n + 1, hn⟩

theorem EndsAlone.mapping (ch : Store.Changed) (newDataId : Option Nat)
    (c : Conn Store StoreError) :
    EndsAlone entryId call now (.mapping ch newDataId, c)
      (Store.toServer (Store.reindex entryId newDataId ch c)) := by
  refine EndsAlone.step ?_
  unfold Store.reindex Store.toServer StatusPc.step
  generalize attempt (Txn.query fun s : Store => s.vectorMap.lookup entryId) c = r
  obtain ⟨(e | _ | d), c'⟩ := r
  · exact EndsAlone.done
  · cases newDataId with
    | none => exact EndsAlone.done
    | some dataId => exact EndsAlone.step EndsAlone.done
  · exact EndsAlone.done

/-- What a restore does once the status is changed. -/
def Store.finish (entryId : Nat) (rest : Rest) (ch : Store.Changed) (c : Conn Store StoreError) :
    Except StoreError Store.Changed × Conn Store StoreError :=
  match rest with
  | none => (.ok ch, c)
  | some (indexed, newDataId) =>
    if 0 < ch.record.embeddingDim ∧ !indexed then reindex entryId newDataId ch c else (.ok ch, c)

/-- A status change, and what a restore does after it. -/
def Store.changeAndFinish (entryId : Nat) (call : StatusCall) (newStatus : Status)
    (setModifiedBy : Bool) (rest : Rest) (now : Nat) (c : Conn Store StoreError) :
    Except StoreError Store.Changed × Conn Store StoreError :=
  match changeStatusWithAudit entryId newStatus call.reason call.agentId setModifiedBy now c with
  | (.error e, c') => (.error e, c')
  | (.ok ch, c') => finish entryId rest ch c'

/-- A call with nothing left to do afterwards is the status change. -/
theorem Store.changeAndFinish_none (entryId : Nat) (call : StatusCall) (newStatus : Status)
    (setModifiedBy : Bool) (now : Nat) (c : Conn Store StoreError) :
    changeAndFinish entryId call newStatus setModifiedBy none now c =
      changeStatusWithAudit entryId newStatus call.reason call.agentId setModifiedBy now c := by
  unfold changeAndFinish
  generalize changeStatusWithAudit entryId newStatus call.reason call.agentId setModifiedBy now c = r
  obtain ⟨(e | ch), c'⟩ := r <;> rfl

theorem EndsAlone.changed (ch : Store.Changed) (rest : Rest) (c : Conn Store StoreError) :
    EndsAlone entryId call now (StatusPc.changed ch rest, c)
      (Store.toServer (Store.finish entryId rest ch c)) := by
  cases rest with
  | none => exact EndsAlone.done
  | some p =>
    obtain ⟨indexed, newDataId⟩ := p
    unfold StatusPc.changed Store.finish
    simp only
    split
    · exact EndsAlone.mapping ch newDataId c
    · exact EndsAlone.done

/-- From its own read on, a call is `change_status_with_audit` and what the restore does after it. -/
theorem EndsAlone.changing (newStatus : Status) (setModifiedBy : Bool) (rest : Rest)
    (c : Conn Store StoreError) :
    EndsAlone entryId call now (.changing newStatus setModifiedBy rest, c)
      (Store.toServer (Store.changeAndFinish entryId call newStatus setModifiedBy rest now c)) := by
  refine EndsAlone.step ?_
  unfold StatusPc.step StatusPc.reading Store.changeAndFinish Store.changeStatusWithAudit
  generalize Store.get entryId c = g
  obtain ⟨(e | current), c'⟩ := g
  · exact EndsAlone.done
  · simp only [StatusPc.update]
    split
    · exact EndsAlone.changed _ rest c'
    · refine EndsAlone.step ?_
      simp only [StatusPc.step]
      generalize Store.applyStatus entryId newStatus call.reason call.agentId setModifiedBy now
        current c' = r
      obtain ⟨(e | ch), c''⟩ := r
      · exact EndsAlone.done
      · exact EndsAlone.changed ch rest c''

end Alone

/-- **An undisturbed `context_quarantine` call is the handler.** -/
theorem task_quarantine_alone (entryId : Nat) (action : Store.QuarantineAction)
    (reason : Option String) (agentId : String) (now : Nat) (c : Conn Store StoreError) :
    EndsAlone entryId ⟨.quarantine action, reason, agentId⟩ now (.start, c)
      (Store.contextQuarantine entryId action reason agentId now c) := by
  refine EndsAlone.step ?_
  unfold StatusPc.step StatusPc.reading Store.contextQuarantine
  generalize Store.get entryId c = g
  obtain ⟨(e | entry), c'⟩ := g
  · exact EndsAlone.done
  · cases action with
    | quarantine =>
      simp only [StatusPc.dispatch, Store.dispatchQuarantine]
      split
      · exact EndsAlone.done
      · have h : EndsAlone entryId ⟨.quarantine .quarantine, reason, agentId⟩ now _ _ :=
          EndsAlone.changing .quarantined true none c'
        rw [Store.changeAndFinish_none] at h
        exact h
    | restore indexed newDataId =>
      simp only [StatusPc.dispatch, Store.dispatchQuarantine]
      split
      · exact EndsAlone.done
      · refine EndsAlone.step ?_
        unfold StatusPc.step StatusPc.reading Store.restoreWithAudit
        generalize Store.get entryId c' = g'
        obtain ⟨(e | entry'), c''⟩ := g'
        · exact EndsAlone.done
        · exact EndsAlone.changing _ true (some (indexed, newDataId)) c''

/-- **An undisturbed `context_deprecate` call is the handler.** -/
theorem task_deprecate_alone (entryId : Nat) (reason : Option String) (agentId : String) (now : Nat)
    (c : Conn Store StoreError) :
    EndsAlone entryId ⟨.deprecate, reason, agentId⟩ now (.start, c)
      (Store.contextDeprecate entryId reason agentId now c) := by
  refine EndsAlone.step ?_
  unfold StatusPc.step StatusPc.reading Store.contextDeprecate
  generalize Store.get entryId c = g
  obtain ⟨(e | entry), c'⟩ := g
  · exact EndsAlone.done
  · simp only [StatusPc.dispatch]
    split
    · exact EndsAlone.done
    · have h : EndsAlone entryId ⟨.deprecate, reason, agentId⟩ now _ _ :=
        EndsAlone.changing .deprecated false none c'
      rw [Store.changeAndFinish_none] at h
      exact h

/-! ## Any number of calls -/

/-- The store, and the calls that have started on the entry. -/
structure StatusRace where
  store : Store
  calls : List (StatusCall × StatusPc)

/-- What happens next: a call comes in, or call `k` makes its next store call at `now`. -/
inductive StatusEvent where
  | start (call : StatusCall)
  | turn (k now : Nat) (fault : Option (Nat × StoreError))

namespace StatusRace

/-- One event. -/
def step (entryId : Nat) (p : StatusRace) : StatusEvent → StatusRace
  | .start call => { p with calls := p.calls ++ [(call, .start)] }
  | .turn k now fault =>
    match p.calls[k]? with
    | none => p
    | some (call, pc) =>
      let r := pc.step entryId call now ⟨p.store, fault⟩
      ⟨r.2.db, p.calls.set k (call, r.1)⟩

/-- A run on `s`, where no call has started. -/
def run (entryId : Nat) (s : Store) (events : List StatusEvent) : StatusRace :=
  events.foldl (step entryId) ⟨s, []⟩

end StatusRace

/-- Quarantined is not written down as the status the entry had before its quarantine. -/
def Store.Unmarked (entryId : Nat) (s : Store) : Prop :=
  ∀ row, s.entries.lookup entryId = some row →
    row.preQuarantineStatus ≠ some Status.quarantined.toU8

/-- The call is a quarantine that has passed the handler's check and reads the entry next. -/
def StatusPc.ReadsToQuarantine : StatusPc → Prop
  | .changing newStatus _ _ => newStatus = .quarantined
  | _ => False

/-- The event is a quarantine past the handler's check that reads the entry, and the entry is Quarantined. -/
def Overtaken (entryId : Nat) (p : StatusRace) : StatusEvent → Prop
  | .start _ => False
  | .turn k _ _ => ∃ t row, p.calls[k]? = some t ∧ t.2.ReadsToQuarantine ∧
      p.store.entries.lookup entryId = some row ∧ row.status = .quarantined

instance Store.decidableUnmarked (entryId : Nat) (s : Store) : Decidable (s.Unmarked entryId) :=
  match h : s.entries.lookup entryId with
  | none => isTrue fun row hl => by rw [h] at hl; cases hl
  | some row =>
    if hq : row.preQuarantineStatus ≠ some Status.quarantined.toU8 then
      isTrue fun row' hl => by rw [h] at hl; cases hl; exact hq
    else isFalse fun hu => hq (hu row h)

instance StatusPc.decidableReadsToQuarantine : DecidablePred StatusPc.ReadsToQuarantine
  | .changing newStatus _ _ => inferInstanceAs (Decidable (newStatus = .quarantined))
  | .start | .restoring _ _ | .updating _ _ _ _ | .mapping _ _ | .putting _ _ | .done _ => isFalse id

instance decidableOvertaken (entryId : Nat) (p : StatusRace) :
    (e : StatusEvent) → Decidable (Overtaken entryId p e)
  | .start _ => isFalse id
  | .turn k _ _ =>
    decidable_of_iff ((∃ t ∈ p.calls[k]?, t.2.ReadsToQuarantine) ∧
        ∃ row ∈ p.store.entries.lookup entryId, row.status = .quarantined)
      ⟨fun ⟨⟨t, ht, hr⟩, row, hl, hq⟩ => ⟨t, row, ht, hr, hl, hq⟩,
        fun ⟨t, row, ht, hr, hl, hq⟩ => ⟨⟨t, ht, hr⟩, row, hl, hq⟩⟩

/-- No call is about to write Quarantined down, and no restore to set it. -/
def StatusPc.Sound : StatusPc → Prop
  | .changing newStatus _ rest => rest.isSome → newStatus ≠ .quarantined
  | .updating newStatus _ current rest =>
    (newStatus = .quarantined → current.status ≠ .quarantined) ∧
      (rest.isSome → newStatus ≠ .quarantined)
  | _ => True

theorem Status.toU8_injective : Function.Injective Status.toU8 := by
  intro a b h
  have hs : Status.tryFrom a.toU8 = Status.tryFrom b.toU8 := congrArg Status.tryFrom h
  rw [Status.tryFrom_toU8, Status.tryFrom_toU8] at hs
  exact Option.some.inj hs

/-- Only a written down Quarantined is restored to. -/
theorem Store.restoreTo_ne_quarantined {preQ : Option UInt8}
    (h : preQ ≠ some Status.quarantined.toU8) : restoreTo preQ ≠ .quarantined := by
  unfold restoreTo
  cases preQ with
  | none => exact Status.noConfusion
  | some v =>
    have hv : v ≠ 3 := fun hv => h (by rw [hv]; rfl)
    rw [Option.bind_some]
    unfold Status.tryFrom
    rw [if_neg hv]
    split
    · exact Status.noConfusion
    · split
      · exact Status.noConfusion
      · split <;> exact Status.noConfusion

theorem StatusPc.changed_sound (ch : Store.Changed) (rest : Rest) : (changed ch rest).Sound := by
  unfold changed
  split
  · trivial
  · split <;> trivial

theorem StatusPc.dispatch_sound (entry : EntryRecord) (request : StatusRequest) :
    (dispatch entry request).Sound := by
  unfold dispatch
  split
  · split
    · trivial
    · exact fun h => absurd h Bool.false_ne_true
  · split <;> trivial
  · split
    · trivial
    · exact fun h => absurd h Bool.false_ne_true

/-- A read keeps the store; what the call does next is sound if it is for the entry as it is. -/
theorem StatusPc.reading_sound {entryId : Nat} {next : EntryRecord → StatusPc}
    {c : Conn Store StoreError}
    (hnext : ∀ entry, c.db.find entryId = some entry → (next entry).Sound) :
    (reading entryId next c).2.db = c.db ∧ (reading entryId next c).1.Sound := by
  obtain ⟨hdb, hread⟩ := Store.get_read entryId c
  unfold reading
  generalize Store.get entryId c = g at hdb hread ⊢
  obtain ⟨(e | entry), c'⟩ := g
  · exact ⟨hdb, trivial⟩
  · exact ⟨hdb, hnext entry (hread entry rfl)⟩

/-- A status update writes down the status it was told. -/
theorem Store.applyStatus_unmarked {entryId : Nat} (newStatus : Status) (reason : Option String)
    (agentId : String) (setModifiedBy : Bool) (now : Nat) {current : EntryRecord}
    {c : Conn Store StoreError} (hc : c.db.Unmarked entryId)
    (hcurrent : newStatus = .quarantined → current.status ≠ .quarantined) :
    (applyStatus entryId newStatus reason agentId setModifiedBy now current c).2.db.Unmarked
      entryId := by
  rcases applyStatus_cases entryId newStatus reason agentId setModifiedBy now current c with
    ⟨hdb, -⟩ | ⟨row, hl, he, -⟩
  · rw [hdb]
    exact hc
  · intro row' hl'
    rw [he, HashMap.lookup_insert_eq, if_pos rfl] at hl'
    cases hl'
    change (if newStatus = .quarantined then some current.status.toU8 else none) ≠ _
    split
    · rename_i hq
      exact fun h => hcurrent hq (Status.toU8_injective (Option.some.inj h))
    · exact fun h => by cases h

/-- Reading the vector map changes no row. -/
theorem StatusPc.mapping_sound {entryId : Nat} (call : StatusCall) (now : Nat) {c : Conn Store StoreError}
    (hc : c.db.Unmarked entryId) (ch : Store.Changed) (newDataId : Option Nat) :
    ((mapping ch newDataId).step entryId call now c).2.db.Unmarked entryId ∧
      ((mapping ch newDataId).step entryId call now c).1.Sound := by
  have hs : Settled _ c (attempt (Txn.query fun s : Store => s.vectorMap.lookup entryId) c) :=
    attempt_settled _ c
  simp only [step]
  generalize attempt (Txn.query fun s : Store => s.vectorMap.lookup entryId) c = r at hs ⊢
  cases hs with
  | failed e => exact ⟨hc, trivial⟩
  | committed o c' h =>
    have hc' : c'.db = c.db := h.query.2
    rw [← hc'] at hc
    cases o with
    | some d => exact ⟨hc, trivial⟩
    | none => cases newDataId <;> exact ⟨hc, trivial⟩

/-- Writing the vector map changes no entry. -/
theorem StatusPc.putting_sound {entryId : Nat} (call : StatusCall) (now : Nat) {c : Conn Store StoreError}
    (hc : c.db.Unmarked entryId) (ch : Store.Changed) (dataId : Nat) :
    ((putting ch dataId).step entryId call now c).2.db.Unmarked entryId ∧
      ((putting ch dataId).step entryId call now c).1.Sound := by
  have hp : Settled _ c (Store.putVectorMapping entryId dataId c) := attempt_settled _ c
  refine ⟨?_, trivial⟩
  simp only [step]
  generalize Store.putVectorMapping entryId dataId c = q at hp ⊢
  cases hp with
  | failed e => exact hc
  | committed _ c' h =>
    intro row hl
    rw [(Store.run_putVector h).1] at hl
    exact hc row hl

/-- **What one store call keeps.** -/
theorem StatusPc.step_sound {entryId : Nat} (call : StatusCall) (now : Nat)
    {c : Conn Store StoreError} {pc : StatusPc} (hc : c.db.Unmarked entryId) (hpc : pc.Sound)
    (hnot : pc.ReadsToQuarantine → ∀ row, c.db.entries.lookup entryId = some row →
      row.status ≠ .quarantined) :
    (pc.step entryId call now c).2.db.Unmarked entryId ∧ (pc.step entryId call now c).1.Sound := by
  have read : ∀ next : EntryRecord → StatusPc,
      (∀ entry, c.db.find entryId = some entry → (next entry).Sound) →
      (reading entryId next c).2.db.Unmarked entryId ∧ (reading entryId next c).1.Sound := by
    intro next hnext
    obtain ⟨hdb, hs⟩ := reading_sound hnext
    rw [hdb]
    exact ⟨hc, hs⟩
  cases pc with
  | start => exact read _ fun entry _ => dispatch_sound entry call.request
  | restoring indexed newDataId =>
    refine read _ fun entry hf => ?_
    obtain ⟨row, hl, -, hpre⟩ := Store.find_status hf
    intro _
    rw [hpre]
    exact Store.restoreTo_ne_quarantined (hc row hl)
  | changing newStatus setModifiedBy rest =>
    refine read _ fun current hf => ?_
    obtain ⟨row, hl, hst, -⟩ := Store.find_status hf
    unfold update
    split
    · exact changed_sound _ rest
    · refine ⟨fun hq => ?_, hpc⟩
      rw [hst]
      exact hnot hq row hl
  | updating newStatus setModifiedBy current rest =>
    have h := Store.applyStatus_unmarked newStatus call.reason call.agentId setModifiedBy now hc hpc.1
    simp only [step]
    generalize Store.applyStatus entryId newStatus call.reason call.agentId setModifiedBy now current c
      = r at h ⊢
    obtain ⟨(e | ch), c'⟩ := r
    · exact ⟨h, trivial⟩
    · exact ⟨h, changed_sound ch rest⟩
  | mapping ch newDataId => exact mapping_sound call now hc ch newDataId
  | putting ch dataId => exact putting_sound call now hc ch dataId
  | done result => exact ⟨hc, trivial⟩

/-- What holds in every state of a race in which no step is overtaken. -/
structure StatusRace.Sound (entryId : Nat) (p : StatusRace) : Prop where
  unmarked : p.store.Unmarked entryId
  calls : ∀ t ∈ p.calls, t.2.Sound

theorem StatusRace.Sound.step {entryId : Nat} {p : StatusRace} {e : StatusEvent}
    (h : p.Sound entryId) (hnot : ¬ Overtaken entryId p e) : (p.step entryId e).Sound entryId := by
  cases e with
  | start call =>
    refine ⟨h.unmarked, fun t ht => ?_⟩
    rcases List.mem_append.mp ht with ht | ht
    · exact h.calls t ht
    · rw [List.mem_singleton.mp ht]
      trivial
  | turn k now fault =>
    simp only [StatusRace.step]
    cases hk : p.calls[k]? with
    | none => exact h
    | some t =>
      obtain ⟨call, pc⟩ := t
      have hmem : (call, pc) ∈ p.calls := List.mem_of_getElem? hk
      obtain ⟨hdb, hpc⟩ := StatusPc.step_sound call now (c := ⟨p.store, fault⟩) h.unmarked
        (h.calls _ hmem) fun hread row hl hq => hnot ⟨_, row, hk, hread, hl, hq⟩
      refine ⟨hdb, fun t ht => ?_⟩
      rcases List.mem_or_eq_of_mem_set ht with ht | rfl
      · exact h.calls t ht
      · exact hpc

/-- A call that has still to set the status, and to which one. -/
def StatusPc.sets : StatusPc → Option Status
  | .changing newStatus _ _ => some newStatus
  | .updating newStatus _ _ _ => some newStatus
  | _ => none

/-- A restore that has found out what to go back to and has not done it yet. -/
def StatusPc.Restores : StatusPc → Prop
  | .changing _ _ rest => rest.isSome
  | .updating _ _ _ rest => rest.isSome
  | _ => False

theorem StatusPc.Sound.sets_ne {pc : StatusPc} (h : pc.Sound) (hr : pc.Restores) :
    pc.sets ≠ some .quarantined := by
  cases pc with
  | changing newStatus setModifiedBy rest => exact fun hs => h hr (Option.some.inj hs)
  | updating newStatus setModifiedBy current rest => exact fun hs => h.2 hr (Option.some.inj hs)
  | start => exact fun hs => by cases hs
  | restoring indexed newDataId => exact fun hs => by cases hs
  | mapping ch newDataId => exact fun hs => by cases hs
  | putting ch dataId => exact fun hs => by cases hs
  | done result => exact fun hs => by cases hs

/-- A restore of an unmarked entry that returns ends in another status than Quarantined. -/
theorem Store.Unmarked.restored {entryId : Nat} {s : Store} (h : s.Unmarked entryId)
    (indexed : Bool) (newDataId : Option Nat) (reason : Option String) (agentId : String) (now : Nat)
    (fault : Option (Nat × StoreError)) {changed : Changed}
    (hret : (contextQuarantine entryId (.restore indexed newDataId) reason agentId now ⟨s, fault⟩).1 =
      .ok changed) :
    changed.record.status ≠ .quarantined ∧
      ∀ row, (contextQuarantine entryId (.restore indexed newDataId) reason agentId now
        ⟨s, fault⟩).2.db.entries.lookup entryId = some row → row.status ≠ .quarantined := by
  obtain ⟨l, l', hl, -, hrec, hl', hst⟩ :=
    (contextQuarantine_restore entryId indexed newDataId reason agentId now ⟨s, fault⟩).2 changed hret
  obtain ⟨row, hlook, rfl⟩ := lives_eq_some.mp hl
  have hback : restoreTo row.life.preQ ≠ .quarantined := restoreTo_ne_quarantined (h row hlook)
  refine ⟨by rw [hrec]; exact hback, fun row' hlook' => ?_⟩
  have hlife := lives_of_lookup hlook'
  rw [hl'] at hlife
  cases hlife
  change row'.life.status ≠ _
  rw [hst]
  exact hback

/-- **In a race in which no step is overtaken, Quarantined is never written down.** So no restore is about to set
it, and one that runs then ends in another status. -/
theorem unmarked_of_not_overtaken (entryId : Nat) (s : Store) (events : List StatusEvent)
    (hs : s.Unmarked entryId)
    (hrun : Runs.Throughout (StatusRace.step entryId) (fun p e => ¬ Overtaken entryId p e) ⟨s, []⟩
      events) :
    let p := StatusRace.run entryId s events
    p.store.Unmarked entryId ∧
      (∀ t ∈ p.calls, t.2.Restores → t.2.sets ≠ some .quarantined) ∧
      ∀ indexed newDataId reason agentId now fault changed,
        (Store.contextQuarantine entryId (.restore indexed newDataId) reason agentId now
          ⟨p.store, fault⟩).1 = .ok changed →
        changed.record.status ≠ .quarantined ∧
          ∀ row, (Store.contextQuarantine entryId (.restore indexed newDataId) reason agentId now
            ⟨p.store, fault⟩).2.db.entries.lookup entryId = some row → row.status ≠ .quarantined := by
  intro p
  have hstart : (⟨s, []⟩ : StatusRace).Sound entryId := ⟨hs, fun t ht => by cases ht⟩
  have h : p.Sound entryId := hrun.invariant (fun q e => StatusRace.Sound.step) hstart
  exact ⟨h.unmarked, fun t ht => (h.calls t ht).sets_ne,
    fun indexed newDataId reason agentId now fault changed hret =>
      h.unmarked.restored indexed newDataId reason agentId now fault hret⟩

/-- One Active entry. -/
def oneActive : Store := Store.linkStore [(1, Store.linkRow .active none none)]

/-- A quarantine and a deprecation interleave, then a restore with the rest of the deprecation. -/
def mixedRace : List StatusEvent :=
  [.start ⟨.quarantine .quarantine, none, "a"⟩, .start ⟨.deprecate, none, "b"⟩,
    .turn 0 1 none, .turn 1 1 none, .turn 0 2 none, .turn 0 3 none, .turn 1 3 none,
    .start ⟨.quarantine (.restore true none), none, "c"⟩, .turn 2 4 none, .turn 2 4 none,
    .turn 1 5 none, .turn 2 6 none, .turn 2 7 none]

theorem unmarked_of_not_overtaken_mixedRace :
    (StatusRace.run 1 oneActive mixedRace).calls.length = 3 ∧
      (StatusRace.run 1 oneActive mixedRace).store.Unmarked 1 :=
  ⟨by decide +kernel,
    (unmarked_of_not_overtaken 1 oneActive mixedRace (by decide +kernel) (by decide +kernel)).1⟩

/-! ## An overtaken quarantine -/

theorem Store.fetchRow_passes {entryId : Nat} {row : EntryRow} {s : Store}
    (hl : s.entries.lookup entryId = some row) : Passes (fetchRow entryId) s row s :=
  (Passes.query _ s).bind (Passes.okOr s hl)

/-- An undisturbed read of an entry that is there returns it. -/
theorem Store.get_passes {entryId : Nat} {row : EntryRow} {s : Store}
    (hl : s.entries.lookup entryId = some row) :
    get entryId ⟨s, none⟩ = (.ok (entryFromRow entryId row (s.tagsOf entryId)), ⟨s, none⟩) := by
  refine Passes.attempt ((fetchRow_passes hl).bind ?_)
  refine Passes.bind (Passes.query _ s) ?_
  exact Passes.ret s (entryFromRow entryId row (s.tagsOf entryId))

/-- An undisturbed status update writes down what it was told. -/
theorem Store.updateEntryStatusExtended_passes {entryId : Nat} {row : EntryRow} {s : Store}
    (newStatus : Status) (setModifiedBy : Option String) (preQ : Option UInt8) (now : Nat)
    (hl : s.entries.lookup entryId = some row) :
    ∃ row', (updateEntryStatusExtended entryId newStatus setModifiedBy preQ now
        ⟨s, none⟩).2.db.entries.lookup entryId = some row' ∧ row'.preQuarantineStatus = preQ := by
  have hbody : ∃ s', Passes (extendedStatusBody entryId newStatus setModifiedBy preQ now) s () s' :=
    ⟨_, (fetchRow_passes hl).bind ((Passes.update _ s).bind
      (((Passes.tick _).bind (Passes.update _ _)).bind ((Passes.tick _).bind (Passes.update _ _))))⟩
  obtain ⟨s', hp⟩ := hbody
  have hrun : Run (extendedStatusBody entryId newStatus setModifiedBy preQ now) s () s' :=
    ⟨none, none, hp⟩
  obtain ⟨row₁, hl₁, he⟩ := run_extendedStatusBody hrun
  unfold updateEntryStatusExtended
  rw [hp.transaction]
  simp only
  rw [(get_read entryId _).1]
  refine ⟨extendedStatus newStatus setModifiedBy preQ now row₁, ?_, rfl⟩
  simp only [he]
  rw [HashMap.lookup_insert_eq, if_pos rfl]

/-- **An overtaken quarantine that goes on undisturbed writes Quarantined down.** -/
theorem overtaken_marks {entryId : Nat} {p : StatusRace} {k now : Nat} (now' : Nat)
    (h : Overtaken entryId p (.turn k now none)) :
    ¬ ((p.step entryId (.turn k now none)).step entryId (.turn k now' none)).store.Unmarked entryId := by
  obtain ⟨⟨call, pc⟩, row, hk, hread, hl, hq⟩ := h
  cases pc with
  | changing newStatus setModifiedBy rest =>
    have hnew : newStatus = .quarantined := hread
    subst hnew
    have hlt : k < p.calls.length := (List.getElem?_eq_some_iff.mp hk).1
    have hfirst : p.step entryId (.turn k now none) =
        ⟨p.store, p.calls.set k (call, .updating .quarantined setModifiedBy
          (entryFromRow entryId row (p.store.tagsOf entryId)) rest)⟩ := by
      simp only [StatusRace.step, hk, StatusPc.step, StatusPc.reading, Store.get_passes hl,
        StatusPc.update, reduceCtorEq, false_and, if_false]
    obtain ⟨row', hl', hpre⟩ := Store.updateEntryStatusExtended_passes .quarantined
      (if setModifiedBy then some call.agentId else none) (some Status.quarantined.toU8) now' hl
    have hstatus : (entryFromRow entryId row (p.store.tagsOf entryId)).status = .quarantined := hq
    rw [hfirst]
    simp only [StatusRace.step, List.getElem?_set_self hlt, StatusPc.step, Store.applyStatus, hstatus,
      if_true]
    generalize Store.updateEntryStatusExtended entryId .quarantined
      (if setModifiedBy then some call.agentId else none) (some Status.quarantined.toU8) now'
      ⟨p.store, none⟩ = r at hl'
    intro hun
    obtain ⟨(e | record), c'⟩ := r
    · exact hun row' hl' hpre
    · exact hun row' hl' hpre
  | start => cases hread
  | restoring indexed newDataId => cases hread
  | updating newStatus setModifiedBy current rest => cases hread
  | mapping ch newDataId => cases hread
  | putting ch dataId => cases hread
  | done result => cases hread

/-- Two quarantines pass the handler's check, then each runs on alone. -/
def twoQuarantines : List StatusEvent :=
  [.start ⟨.quarantine .quarantine, none, "a"⟩, .start ⟨.quarantine .quarantine, none, "b"⟩,
    .turn 0 1 none, .turn 1 1 none, .turn 0 2 none, .turn 0 3 none, .turn 1 4 none, .turn 1 5 none]

/-- After them a restore returns an entry that is still Quarantined. -/
theorem quarantined_twice :
    let p := StatusRace.run 1 oneActive twoQuarantines
    let r := Store.contextQuarantine 1 (.restore true none) none "c" 6 ⟨p.store, none⟩
    oneActive.Unmarked 1 ∧ ¬ p.store.Unmarked 1 ∧
      r.1.toOption.map (fun changed => changed.record.status) = some .quarantined ∧
      (r.2.db.entries.lookup 1).map EntryRow.status = some .quarantined := by
  decide +kernel

end Unimatrix
