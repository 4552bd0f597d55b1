import Unimatrix.Store.Write

/-!
# What a call does to the rows and the counters

`Append` lists the steps the operations are made of: an id is allocated, a row is edited outside its
chain columns, a row is created. `Change` adds what `update` and `delete` do: a row is rewritten or
removed. Tags, vector mappings and everything else a row holds are left to the `same` and `edit` steps.

* `exec_appends`, **`exec_changes`**: a call is a sequence of such steps, whether it commits or fails,
  and an id it hands out is new (`Allocated`); **`run_changes`**: so is a run.
* `Recount`: a row keeps its status and the counters stand, or it changes it and two counters move.
* `RowLinked`: what a new row's chain columns say, which is all the chain invariant needs.
-/

namespace Unimatrix

open Txn Relation

namespace Store

/-! ## Steps -/

/-- The last id handed out. -/
def nextId (s : Store) : Nat := s.counters.read "next_entry_id"

/-- Every row's id has been handed out. -/
def Bounded (s : Store) : Prop := ∀ id row, s.entries.lookup id = some row → id ≤ s.nextId

/-- The counters after a row went from status `old` to `new`. -/
inductive Recount (c : Counters) (old new : Status) : Counters → Prop where
  | kept : new = old → Recount c old new c
  | moved : Recount c old new
      ((c.decrement (statusCounterKey old) 1).increment (statusCounterKey new) 1)

/-- The chain columns of a row: it is the first of its chain, or it follows an older entry. -/
inductive RowLinked (s : Store) (id : Nat) (row : EntryRow) : Prop where
  | genesis : row.supersedes = none → row.previousHash = "" → RowLinked s id row
  | follows (p : Nat) (pred : EntryRow) : row.supersedes = some p → p < id →
      s.entries.lookup p = some pred → row.previousHash = pred.contentHash →
      row.version = pred.version + 1 → RowLinked s id row

/-- One step of an operation that keeps the chain. -/
inductive Append (sha256 : Digest) (s s' : Store) : Prop where
  | same : s'.entries = s.entries → s'.counters = s.counters → Append sha256 s s'
  | alloc (id : Nat) : s.counters.next "next_entry_id" = .ok (id, s'.counters) →
      s'.entries = s.entries → Append sha256 s s'
  | edit (id : Nat) (row row' : EntryRow) : s.entries.lookup id = some row →
      s'.entries = s.entries.insert id row' → row'.links = row.links →
      Recount s.counters row.status row'.status s'.counters → Append sha256 s s'
  | create (id : Nat) (row : EntryRow) : s.entries.lookup id = none → id ≤ s.nextId →
      s'.entries = s.entries.insert id row →
      row.contentHash = computeContentHash sha256 row.title row.content → RowLinked s id row →
      s'.counters = s.counters.increment (statusCounterKey row.status) 1 → Append sha256 s s'

/-- One step of any operation. -/
inductive Change (sha256 : Digest) (s s' : Store) : Prop where
  | append : Append sha256 s s' → Change sha256 s s'
  | rewrite (id : Nat) (row row' : EntryRow) : s.entries.lookup id = some row →
      s'.entries = s.entries.insert id row' →
      Recount s.counters row.status row'.status s'.counters → Change sha256 s s'
  | remove (id : Nat) (row : EntryRow) : s.entries.lookup id = some row →
      s'.entries = s.entries.erase id →
      s'.counters = s.counters.decrement (statusCounterKey row.status) 1 → Change sha256 s s'

/-- A sequence of steps that keep the chain. -/
abbrev Appends (sha256 : Digest) : Store → Store → Prop := ReflTransGen (Append sha256)

/-- A sequence of steps. -/
abbrev Changes (sha256 : Digest) : Store → Store → Prop := ReflTransGen (Change sha256)

theorem Appends.changes {sha256 : Digest} {s s' : Store} (h : Appends sha256 s s') :
    Changes sha256 s s' := by
  induction h with
  | refl => exact ReflTransGen.refl
  | tail _ h ih => exact ih.tail (Change.append h)

/-! ## The last id handed out -/

theorem statusCounterKey_ne_next (st : Status) : "next_entry_id" ≠ statusCounterKey st := by
  cases st <;> decide

theorem Recount.read_next {c c' : Counters} {old new : Status} (h : Recount c old new c') :
    c'.read "next_entry_id" = c.read "next_entry_id" := by
  cases h with
  | kept => rfl
  | moved =>
    rw [Counters.read_increment, if_neg (statusCounterKey_ne_next new), Counters.read_decrement,
      if_neg (statusCounterKey_ne_next old)]

theorem Append.nextId_le {sha256 : Digest} {s s' : Store} (h : Append sha256 s s') :
    s.nextId ≤ s'.nextId := by
  unfold nextId
  cases h with
  | same _ hc => rw [hc]
  | alloc id hn _ =>
    obtain ⟨hid, -, hc⟩ := Counters.next_eq hn
    rw [hc, Counters.read_set, if_pos rfl]
    omega
  | edit _ _ _ _ _ _ hc => rw [hc.read_next]
  | create id row _ _ _ _ _ hc =>
    rw [hc, Counters.read_increment, if_neg (statusCounterKey_ne_next row.status)]

theorem Change.nextId_le {sha256 : Digest} {s s' : Store} (h : Change sha256 s s') :
    s.nextId ≤ s'.nextId := by
  cases h with
  | append h => exact h.nextId_le
  | rewrite _ _ _ _ _ hc => exact Nat.le_of_eq hc.read_next.symm
  | remove id row _ _ hc =>
    unfold nextId
    rw [hc, Counters.read_decrement, if_neg (statusCounterKey_ne_next row.status)]

theorem Changes.nextId_le {sha256 : Digest} {s s' : Store} (h : Changes sha256 s s') :
    s.nextId ≤ s'.nextId := by
  induction h with
  | refl => exact Nat.le_refl _
  | tail _ h ih => exact Nat.le_trans ih h.nextId_le

/-- Replacing a row keeps every id handed out. -/
theorem Bounded.replace {s s' : Store} (hb : s.Bounded) {id : Nat} {row' : EntryRow}
    (hid : id ≤ s.nextId) (he : s'.entries = s.entries.insert id row') (hn : s.nextId ≤ s'.nextId) :
    s'.Bounded := by
  intro i r hr
  rw [he, HashMap.lookup_insert_eq] at hr
  split at hr
  · rename_i heq
    omega
  · exact Nat.le_trans (hb i r hr) hn

theorem Change.bounded {sha256 : Digest} {s s' : Store} (h : Change sha256 s s') (hb : s.Bounded) :
    s'.Bounded := by
  have hn := h.nextId_le
  cases h with
  | append h =>
    cases h with
    | same he hc =>
      intro i r hr
      rw [he] at hr
      exact Nat.le_trans (hb i r hr) hn
    | alloc id _ he =>
      intro i r hr
      rw [he] at hr
      exact Nat.le_trans (hb i r hr) hn
    | edit id row row' hl he _ _ => exact hb.replace (hb id row hl) he hn
    | create id row hl hid he _ _ _ => exact hb.replace hid he hn
  | rewrite id row row' hl he _ => exact hb.replace (hb id row hl) he hn
  | remove id row hl he _ =>
    intro i r hr
    rw [he, HashMap.lookup_erase_eq] at hr
    split at hr
    · cases hr
    · exact Nat.le_trans (hb i r hr) hn

theorem Changes.bounded {sha256 : Digest} {s s' : Store} (h : Changes sha256 s s') (hb : s.Bounded) :
    s'.Bounded := by
  induction h with
  | refl => exact hb
  | tail _ h ih => exact h.bounded ih

theorem empty_bounded : empty.Bounded := by
  intro id row h
  cases h

/-! ## Statements -/

theorem run_insertRow {id : Nat} {row : EntryRow} {s s' : Store} {u : Unit}
    (h : Run (insertRow id row) s u s') :
    s.entries.lookup id = none ∧ s' = { s with entries := s.entries.insert id row } := by
  have hs := Run.statement h
  cases hl : s.entries.lookup id with
  | some r =>
    simp only [hl] at hs
    cases hs
  | none =>
    simp only [hl] at hs
    cases hs
    exact ⟨rfl, rfl⟩

theorem setRow_of_some {s : Store} {id : Nat} {row : EntryRow} (h : s.entries.lookup id = some row)
    (f : EntryRow → EntryRow) :
    s.setRow id f = { s with entries := s.entries.insert id (f row) } := by
  unfold setRow
  rw [h]

theorem run_fetchRow {id : Nat} {row : EntryRow} {s s' : Store} (h : Run (fetchRow id) s row s') :
    s.entries.lookup id = some row ∧ s' = s := by
  obtain ⟨o, s₁, hq, h⟩ := Run.bind h
  obtain ⟨rfl, rfl⟩ := hq.query
  exact h.okOr

theorem run_nextEntryId {id : Nat} {s s' : Store} (h : Run nextEntryId s id s') :
    ∃ c, s.counters.next "next_entry_id" = .ok (id, c) ∧ s' = { s with counters := c } := by
  have hs := Run.statement h
  cases hn : s.counters.next "next_entry_id" with
  | error e =>
    rw [hn] at hs
    cases hs
  | ok r =>
    rw [hn] at hs
    cases hs
    exact ⟨r.2, rfl, rfl⟩

theorem run_incrementCounter {name : String} {delta : Nat} {s s' : Store} {u : Unit}
    (h : Run (incrementCounter name delta) s u s') :
    s' = { s with counters := s.counters.increment name delta } := by
  obtain ⟨_, s₁, ht, hu⟩ := Run.bind h
  rw [hu.update, ht.tick]

theorem run_decrementCounter {name : String} {delta : Nat} {s s' : Store} {u : Unit}
    (h : Run (decrementCounter name delta) s u s') :
    s' = { s with counters := s.counters.decrement name delta } := by
  obtain ⟨_, s₁, ht, hu⟩ := Run.bind h
  rw [hu.update, ht.tick]

theorem run_moveStatus {old new : Status} {s s' : Store} {u : Unit}
    (h : Run (moveStatus old new) s u s') :
    s' = { s with counters :=
      (s.counters.decrement (statusCounterKey old) 1).increment (statusCounterKey new) 1 } := by
  obtain ⟨_, s₁, hd, h⟩ := Run.bind h
  obtain rfl := run_decrementCounter hd
  exact run_incrementCounter h

/-- The rows and the counters stand. -/
def SameRows (s s' : Store) : Prop := s'.entries = s.entries ∧ s'.counters = s.counters

theorem SameRows.refl (s : Store) : SameRows s s := ⟨rfl, rfl⟩

theorem SameRows.trans (s t u : Store) (h : SameRows s t) (h' : SameRows t u) : SameRows s u :=
  ⟨h'.1.trans h.1, h'.2.trans h.2⟩

theorem SameRows.appends {sha256 : Digest} {s s' : Store} (h : SameRows s s') :
    Appends sha256 s s' := ReflTransGen.single (Append.same h.1 h.2)

theorem run_insertTag {id : Nat} {tag : String} {s s' : Store} {u : Unit}
    (h : Run (insertTag id tag) s u s') : SameRows s s' := by
  have hs := Run.statement h
  split at hs
  · cases hs
  · cases hs
    exact ⟨rfl, rfl⟩

theorem run_insertTags {id : Nat} {tags : List String} {s s' : Store} {u : Unit}
    (h : Run (tags.forM (insertTag id)) s u s') : SameRows s s' :=
  Run.forM SameRows.refl SameRows.trans (fun _ _ _ _ _ h => run_insertTag h) h

theorem run_insertTagIfAbsent {id : Nat} {tag : String} {s s' : Store} {u : Unit}
    (h : Run (insertTagIfAbsent id tag) s u s') : SameRows s s' := by
  have hs := Run.statement h
  split at hs
  · cases hs
    exact SameRows.refl s
  · split at hs
    · cases hs
    · cases hs
      exact ⟨rfl, rfl⟩

theorem run_deleteTags {p : Nat × String → Bool} {s s' : Store} {u : Unit}
    (h : Run (deleteTags p) s u s') : SameRows s s' := by
  rw [Run.update h]
  exact ⟨rfl, rfl⟩

theorem run_putVector {id dataId : Nat} {s s' : Store} {u : Unit}
    (h : Run (putVector id dataId) s u s') : SameRows s s' := by
  rw [Run.update h]
  exact ⟨rfl, rfl⟩

theorem run_deleteVector {id : Nat} {s s' : Store} {u : Unit}
    (h : Run (deleteVector id) s u s') : SameRows s s' := by
  rw [Run.update h]
  exact ⟨rfl, rfl⟩

/-! ## The bodies of the operations -/

/-- The id a call handed out is new and counted. -/
def Allocated (s s' : Store) (id : Nat) : Prop := s.nextId < id ∧ id ≤ s'.nextId

/-- An edit outside the chain columns and the status. -/
theorem setRow_appends (sha256 : Digest) (s : Store) (id : Nat) {f : EntryRow → EntryRow}
    (hf : ∀ row, (f row).links = row.links) (hs : ∀ row, (f row).status = row.status) :
    Appends sha256 s (s.setRow id f) := by
  cases hl : s.entries.lookup id with
  | none =>
    have heq : s.setRow id f = s := by
      unfold setRow
      rw [hl]
    rw [heq]
  | some row =>
    rw [setRow_of_some hl]
    exact ReflTransGen.single
      (Append.edit id row (f row) hl rfl (hf row) (Recount.kept (hs row)))

/-- An edit of the status outside the chain columns, with its counters. -/
theorem restatus_append {sha256 : Digest} {s s₁ s' : Store} {id : Nat} {row : EntryRow}
    {f : EntryRow → EntryRow} {new : Status} {u v : Unit} (hl : s.entries.lookup id = some row)
    (hf : (f row).links = row.links) (hnew : (f row).status = new)
    (hu : Run (updateRow id f) s u s₁) (hm : Run (moveStatus row.status new) s₁ v s') :
    Append sha256 s s' := by
  have h₁ : s₁ = { s with entries := s.entries.insert id (f row) } :=
    (Run.update hu).trans (setRow_of_some hl f)
  have h₂ := run_moveStatus hm
  refine Append.edit id row (f row) hl ?_ hf ?_
  · rw [h₂, h₁]
  · rw [h₂, h₁, hnew]
    exact Recount.moved

/-- The tail of `insert` and `correct_entry`: the new row and its counter. -/
theorem create_append {sha256 : Digest} {s s₁ s₂ s' : Store} {id : Nat} {row : EntryRow} {u v : Unit}
    (hi : Run (insertRow id row) s u s₁) (hsame : SameRows s₁ s₂)
    (hc : Run (incrementCounter (statusCounterKey row.status) 1) s₂ v s') (hid : id ≤ s.nextId)
    (hhash : row.contentHash = computeContentHash sha256 row.title row.content)
    (hlink : RowLinked s id row) : Append sha256 s s' := by
  obtain ⟨hnone, h₁⟩ := run_insertRow hi
  have he : s₂.entries = s.entries.insert id row := by rw [hsame.1, h₁]
  have hcount : s₂.counters = s.counters := by rw [hsame.2, h₁]
  refine Append.create id row hnone hid ?_ hhash hlink ?_
  · rw [run_incrementCounter hc]
    exact he
  · rw [run_incrementCounter hc, hcount]

theorem nextEntryId_append {sha256 : Digest} {id : Nat} {s s' : Store}
    (h : Run nextEntryId s id s') :
    Append sha256 s s' ∧ s'.entries = s.entries ∧ s.nextId < id ∧ id = s'.nextId := by
  obtain ⟨c, hn, rfl⟩ := run_nextEntryId h
  obtain ⟨hid, -, hc⟩ := Counters.next_eq hn
  have hnext : id = c.read "next_entry_id" := by rw [hc, Counters.read_set, if_pos rfl]
  refine ⟨Append.alloc id hn rfl, rfl, ?_, hnext⟩
  have hlt : s.counters.read "next_entry_id" < id := by omega
  exact hlt

theorem insertBody_appends {sha256 : Digest} {entry : NewEntry} {now id : Nat} {s s' : Store}
    (h : Run (insertBody sha256 entry now) s id s') :
    Appends sha256 s s' ∧ Allocated s s' id := by
  obtain ⟨id₁, s₁, hn, h⟩ := Run.bind h
  obtain ⟨_, s₂, hi, h⟩ := Run.bind h
  obtain ⟨_, s₃, ht, h⟩ := Run.bind h
  obtain ⟨_, s₄, hc, h⟩ := Run.bind h
  obtain ⟨hret, hs₄⟩ := h.ret
  rw [hret, hs₄]
  obtain ⟨halloc, -, hlt, hid⟩ := nextEntryId_append hn
  have hcreate : Append sha256 s₁ s₄ :=
    create_append hi (run_insertTags ht) hc (Nat.le_of_eq hid) rfl (RowLinked.genesis rfl rfl)
  refine ⟨(ReflTransGen.single halloc).tail hcreate, hlt, ?_⟩
  rw [hid]
  exact hcreate.nextId_le

theorem run_checkCorrectable {original : EntryRecord} {s s' : Store} {u : Unit}
    (h : Run (checkCorrectable original) s u s') : s' = s := by
  obtain ⟨_, s₁, h₁, h⟩ := Run.bind h
  obtain ⟨_, s₂, h₂, h⟩ := Run.bind h
  rw [h.reject.2, h₂.reject.2, h₁.reject.2]

theorem correctEntryBody_appends {sha256 : Digest} {originalId : Nat} {correction : NewEntry}
    {newDataId : Nat} {dim : UInt16} {now : Nat} {s s' : Store} {r : EntryRecord × EntryRecord}
    (hb : s.Bounded)
    (h : Run (correctEntryBody sha256 originalId correction newDataId dim now) s r s') :
    Appends sha256 s s' ∧ Allocated s s' r.2.id := by
  obtain ⟨row, s₁, hf, h⟩ := Run.bind h
  obtain ⟨hl, hs₁⟩ := run_fetchRow hf
  obtain ⟨tags, s₂, hq, h⟩ := Run.bind h
  obtain ⟨_, s₃, hcheck, h⟩ := Run.bind h
  have hs₃ : s₃ = s := by rw [run_checkCorrectable hcheck, hq.query.2, hs₁]
  obtain ⟨newId, s₄, hn, h⟩ := Run.bind h
  obtain ⟨_, s₅, hu, h⟩ := Run.bind h
  obtain ⟨_, s₆, hm, h⟩ := Run.bind h
  obtain ⟨_, s₇, hi, h⟩ := Run.bind h
  obtain ⟨_, s₈, ht, h⟩ := Run.bind h
  obtain ⟨_, s₉, hv, h⟩ := Run.bind h
  obtain ⟨_, s₁₀, hc, h⟩ := Run.bind h
  obtain ⟨hret, hs₁₀⟩ := h.ret
  rw [hret, hs₁₀]
  rw [hs₃] at hn
  obtain ⟨halloc, he, hlt, hid⟩ := nextEntryId_append hn
  have hl₄ : s₄.entries.lookup originalId = some row := by rw [he]; exact hl
  have hedit : Append sha256 s₄ s₆ := restatus_append hl₄ rfl rfl hu hm
  have hl₆ : s₆.entries.lookup originalId = some (deprecatedBy newId now row) := by
    rw [run_moveStatus hm, Run.update hu, setRow_of_some hl₄]
    exact AList.lookup_insert _
  -- the original was there before the new id, so it is older
  have hold : originalId < newId := Nat.lt_of_le_of_lt (hb originalId row hl) hlt
  have hcreate : Append sha256 s₆ s₁₀ :=
    create_append hi (SameRows.trans _ _ _ (run_insertTags ht) (run_putVector hv)) hc
      (hid ▸ hedit.nextId_le) rfl
      (RowLinked.follows originalId _ rfl hold hl₆ rfl rfl)
  refine ⟨((ReflTransGen.single halloc).tail hedit).tail hcreate, hlt, ?_⟩
  have hle := Nat.le_trans hedit.nextId_le hcreate.nextId_le
  rw [← hid] at hle
  exact hle

/-- The body `update_status` and `update_entry_status_extended` share. -/
theorem statusBody_append {sha256 : Digest} {entryId : Nat} {newStatus : Status}
    {f : EntryRow → EntryRow} {s s' : Store} {u : Unit}
    (hf : ∀ row, (f row).links = row.links) (hnew : ∀ row, (f row).status = newStatus)
    (h : Run (do
      let old ← fetchRow entryId
      updateRow entryId f
      moveStatus old.status newStatus) s u s') : Append sha256 s s' := by
  obtain ⟨row, s₁, hrow, h⟩ := Run.bind h
  obtain ⟨hl, hs₁⟩ := run_fetchRow hrow
  obtain ⟨_, s₂, hu, hm⟩ := Run.bind h
  rw [hs₁] at hu
  exact restatus_append hl (hf row) (hnew row) hu hm

theorem updateStatusBody_append {sha256 : Digest} {entryId : Nat} {newStatus : Status} {now : Nat}
    {s s' : Store} {u : Unit} (h : Run (updateStatusBody entryId newStatus now) s u s') :
    Append sha256 s s' :=
  statusBody_append (f := fun row => { row with status := newStatus, updatedAt := now })
    (fun _ => rfl) (fun _ => rfl) h

theorem extendedStatusBody_append {sha256 : Digest} {entryId : Nat} {newStatus : Status}
    {by_ : Option String} {preQ : Option UInt8} {now : Nat} {s s' : Store} {u : Unit}
    (h : Run (extendedStatusBody entryId newStatus by_ preQ now) s u s') : Append sha256 s s' :=
  statusBody_append (f := extendedStatus newStatus by_ preQ now) (fun _ => rfl) (fun _ => rfl) h

theorem run_evictPrior {scan : HashMap.IterOrder Nat String} {entryId : Nat} {ns : String}
    {s s' : Store} {r : Option String} (h : Run (evictPrior scan entryId ns) s r s') :
    SameRows s s' := by
  unfold evictPrior at h
  split at h
  · rw [h.ret.2]
    exact SameRows.refl s
  · obtain ⟨_, s₁, hq, h⟩ := Run.bind h
    obtain ⟨_, s₂, hd, h⟩ := Run.bind h
    rw [hq.query.2] at hd
    rw [h.ret.2]
    exact run_deleteTags hd

theorem replaceTagBody_sameRows {scan : HashMap.IterOrder Nat String} {entryId : Nat}
    {ns newTag : String} {s s' : Store} {r : Option String}
    (h : Run (replaceTagBody scan entryId ns newTag) s r s') : SameRows s s' := by
  obtain ⟨prior, s₁, hp, h⟩ := Run.bind h
  obtain ⟨_, s₂, hi, h⟩ := Run.bind h
  rw [h.ret.2]
  exact (run_evictPrior hp).trans _ _ _ (run_insertTagIfAbsent hi)

theorem recomputeConfidence_appends {sha256 : Digest} {f : EntryRecord → Nat → UInt64} {now id : Nat}
    {s s' : Store} {u : Unit} (h : Run (recomputeConfidence f now id) s u s') :
    Appends sha256 s s' := by
  obtain ⟨row, s₁, hf, h⟩ := Run.bind h
  obtain ⟨tags, s₂, hq, h⟩ := Run.bind h
  obtain ⟨_, s₃, hb, h⟩ := Run.bind h
  rw [Run.update h, (Run.reject hb).2, hq.query.2, (run_fetchRow hf).2]
  exact setRow_appends sha256 s id (fun _ => rfl) (fun _ => rfl)

theorem recordUsageOf_appends {sha256 : Digest} {u : Usage}
    {confidenceFn : Option (EntryRecord → Nat → UInt64)} {now id : Nat} {s s' : Store} {v : Unit}
    (h : Run (recordUsageOf u confidenceFn now id) s v s') : Appends sha256 s s' := by
  obtain ⟨_, s₁, hu, h⟩ := Run.bind h
  have hset : Appends sha256 s s₁ := by
    rw [Run.update hu]
    exact setRow_appends sha256 s id (fun _ => rfl) (fun _ => rfl)
  cases confidenceFn with
  | none =>
    rw [Run.ret h |>.2]
    exact hset
  | some f => exact hset.trans (recomputeConfidence_appends h)

theorem recordUsageEntry_appends {sha256 : Digest} {u : Usage}
    {confidenceFn : Option (EntryRecord → Nat → UInt64)} {now id : Nat} {s s' : Store} {v : Unit}
    (h : Run (recordUsageEntry u confidenceFn now id) s v s') : Appends sha256 s s' := by
  obtain ⟨found, s₁, hq, hbody⟩ := Run.bind h
  rw [hq.query.2] at hbody
  split at hbody
  · exact recordUsageOf_appends hbody
  · rw [hbody.ret.2]

theorem updateBody_change {sha256 : Digest} {entry : EntryRecord} {s s' : Store} {u : Unit}
    (h : Run (updateBody entry) s u s') : Change sha256 s s' := by
  obtain ⟨row, s₁, hf, h⟩ := Run.bind h
  obtain ⟨hl, hs₁⟩ := run_fetchRow hf
  obtain ⟨_, s₂, hb, h⟩ := Run.bind h
  obtain ⟨_, s₃, hu, h⟩ := Run.bind h
  obtain ⟨_, s₄, hd, h⟩ := Run.bind h
  obtain ⟨_, s₅, ht, hend⟩ := Run.bind h
  have h₃ : s₃ = { s with entries := s.entries.insert entry.id (rowOf entry row) } := by
    rw [Run.update hu, (Run.reject hb).2, hs₁, setRow_of_some hl]
  have hsame : SameRows s₃ s₅ := SameRows.trans _ _ _ (run_deleteTags hd) (run_insertTags ht)
  have he : s₅.entries = s.entries.insert entry.id (rowOf entry row) := by rw [hsame.1, h₃]
  have hc : s₅.counters = s.counters := by rw [hsame.2, h₃]
  split at hend
  · refine Change.rewrite entry.id row (rowOf entry row) hl ?_ ?_
    · rw [run_moveStatus hend]
      exact he
    · rw [run_moveStatus hend, hc]
      exact Recount.moved
  · rename_i hst
    rw [hend.ret.2]
    refine Change.rewrite entry.id row (rowOf entry row) hl he ?_
    rw [hc]
    exact Recount.kept (not_not.mp hst)

theorem deleteBody_change {sha256 : Digest} {entryId : Nat} {s s' : Store} {u : Unit}
    (h : Run (deleteBody entryId) s u s') : Change sha256 s s' := by
  obtain ⟨row, s₁, hf, h⟩ := Run.bind h
  obtain ⟨hl, hs₁⟩ := run_fetchRow hf
  obtain ⟨_, s₂, hd, h⟩ := Run.bind h
  obtain ⟨_, s₃, hv, hc⟩ := Run.bind h
  have hsame := run_deleteVector hv
  have h₂ := Run.update hd
  rw [hs₁] at h₂
  have he : s₃.entries = s.entries.erase entryId := by rw [hsame.1, h₂]
  have hcount : s₃.counters = s.counters := by rw [hsame.2, h₂]
  refine Change.remove entryId row hl ?_ ?_
  · rw [run_decrementCounter hc]
    exact he
  · rw [run_decrementCounter hc, hcount]

/-! ## Calls -/

/-- What a call did: steps, and a new id if it handed one out. -/
structure Did (R : Store → Store → Prop) (s : Store)
    (r : Except StoreError (Option Nat) × Conn Store StoreError) : Prop where
  steps : R s r.2.db
  allocated : ∀ id, r.1 = .ok (some id) → Allocated s r.2.db id

/-- A committed body did its steps, a failed one did nothing. -/
theorem did_of_settled {R : Store → Store → Prop} (refl : ∀ s, R s s) {α : Type}
    {body : StoreTxn α} {f : α → Option Nat} {c : Conn Store StoreError}
    {r : Except StoreError α × Conn Store StoreError} (hr : Settled body c r)
    (h : ∀ a s', Run body c.db a s' → R c.db s' ∧ ∀ id, f a = some id → Allocated c.db s' id) :
    Did R c.db (handedOut f r) := by
  cases hr with
  | failed e => exact ⟨refl c.db, fun id hid => by cases hid⟩
  | committed a c' hrun =>
    obtain ⟨hsteps, hid⟩ := h a c'.db hrun
    exact ⟨hsteps, fun id hf => hid id (Except.ok.inj hf)⟩

/-- The same for an operation that hands out no id. -/
theorem did_quiet {R : Store → Store → Prop} (refl : ∀ s, R s s) {α : Type} {body : StoreTxn α}
    {c : Conn Store StoreError} {r : Except StoreError α × Conn Store StoreError}
    (hr : Settled body c r) (h : ∀ a s', Run body c.db a s' → R c.db s') :
    Did R c.db (handedOut (fun _ => none) r) :=
  did_of_settled refl hr fun a s' hrun => ⟨h a s' hrun, fun _ hid => by cases hid⟩

theorem did_nothing {R : Store → Store → Prop} (refl : ∀ s, R s s) {α : Type} (a : α)
    (c : Conn Store StoreError) : Did R c.db (handedOut (fun _ => none) (.ok a, c)) :=
  ⟨refl c.db, fun _ hid => by cases hid⟩

/-- The read after the commit of `update_entry_status_extended` changes nothing. -/
theorem extendedStatus_did {sha256 : Digest} {entryId : Nat} {newStatus : Status}
    {by_ : Option String} {preQ : Option UInt8} {now : Nat} (c : Conn Store StoreError) :
    Did (Appends sha256) c.db (handedOut (fun _ => none)
      (updateEntryStatusExtended entryId newStatus by_ preQ now c)) := by
  have hset := transaction_settled (extendedStatusBody entryId newStatus by_ preQ now) c
  unfold updateEntryStatusExtended
  generalize transaction (extendedStatusBody entryId newStatus by_ preQ now) c = r at hset ⊢
  cases hset with
  | failed e => exact ⟨ReflTransGen.refl, fun _ hid => by cases hid⟩
  | committed _ c' hrun =>
    have hstep : Appends sha256 c.db c'.db :=
      ReflTransGen.single (extendedStatusBody_append hrun)
    have hget : Did (Appends sha256) c'.db (handedOut (fun _ => none) (get entryId c')) := by
      refine did_quiet (fun _ => ReflTransGen.refl) (attempt_settled _ c') fun _ s' h => ?_
      obtain ⟨row, s₁, hf, h⟩ := Run.bind h
      obtain ⟨tags, s₂, hq, h⟩ := Run.bind h
      rw [h.ret.2, hq.query.2, (run_fetchRow hf).2]
    refine ⟨hstep.trans hget.steps, fun id hid => ?_⟩
    simp only [handedOut] at hid
    cases hres : (get entryId c').1 with
    | error e =>
      rw [hres] at hid
      cases hid
    | ok a =>
      rw [hres] at hid
      cases hid

theorem appends_refl (sha256 : Digest) (s : Store) : Appends sha256 s s := ReflTransGen.refl

/-- **Every call that keeps the chain is a sequence of its steps.** -/
theorem exec_appends {sha256 : Digest} {now : Nat} {c : Conn Store StoreError} (hb : c.db.Bounded)
    (op : AppendOp) : Did (Appends sha256) c.db (op.exec sha256 now c) := by
  have hrefl := appends_refl sha256
  cases op with
  | insert entry =>
    refine did_of_settled hrefl (transaction_settled _ c) fun id s' h => ?_
    obtain ⟨hsteps, hid⟩ := insertBody_appends h
    exact ⟨hsteps, fun i hi => Option.some.inj hi ▸ hid⟩
  | correctEntry originalId correction newDataId dim =>
    refine did_of_settled hrefl (transaction_settled _ c) fun r s' h => ?_
    obtain ⟨hsteps, hid⟩ := correctEntryBody_appends hb h
    exact ⟨hsteps, fun i hi => Option.some.inj hi ▸ hid⟩
  | updateStatus entryId newStatus =>
    refine did_quiet hrefl (transaction_settled _ c) fun _ s' h => ?_
    exact ReflTransGen.single (updateStatusBody_append h)
  | updateEntryStatusExtended entryId newStatus by_ preQ => exact extendedStatus_did c
  | addTag entryId tag =>
    exact did_quiet hrefl (transaction_settled _ c) fun _ _ h => (run_insertTagIfAbsent h).appends
  | removeTag entryId tag =>
    exact did_quiet hrefl (transaction_settled _ c) fun _ _ h => (run_deleteTags h).appends
  | replaceTag scan entryId ns newTag =>
    exact did_quiet hrefl (transaction_settled _ c) fun _ _ h => (replaceTagBody_sameRows h).appends
  | recordUsage allIds u confidenceFn =>
    simp only [AppendOp.exec, recordUsage]
    split
    · exact did_nothing hrefl () c
    · refine did_quiet hrefl (transaction_settled _ c) fun _ s' h => ?_
      exact Run.forM hrefl (fun _ _ _ => ReflTransGen.trans)
        (fun _ _ _ _ _ h => recordUsageEntry_appends h) h
  | incrementAccessCounts ids amount =>
    simp only [AppendOp.exec, incrementAccessCounts]
    split
    · exact did_nothing hrefl () c
    · refine did_quiet hrefl (transaction_settled _ c) fun _ s' h => ?_
      refine Run.forM hrefl (fun _ _ _ => ReflTransGen.trans) (fun id _ s _ s' h => ?_) h
      rw [Run.update h]
      exact setRow_appends sha256 s id (fun _ => rfl) (fun _ => rfl)
  | updateConfidence entryId confidence =>
    refine did_quiet hrefl (attempt_settled _ c) fun _ s' h => ?_
    have hs := Run.statement h
    split at hs
    · cases hs
    · split at hs
      · cases hs
      · cases hs
        exact setRow_appends sha256 c.db entryId (fun _ => rfl) (fun _ => rfl)
  | updateEmbeddingDim entryId dim =>
    refine did_quiet hrefl (attempt_settled _ c) fun _ s' h => ?_
    rw [Run.update h]
    exact setRow_appends sha256 c.db entryId (fun _ => rfl) (fun _ => rfl)
  | putVectorMapping entryId dataId =>
    exact did_quiet hrefl (attempt_settled _ c) fun _ _ h => (run_putVector h).appends
  | deleteVectorMapping entryId =>
    exact did_quiet hrefl (attempt_settled _ c) fun _ _ h => (run_deleteVector h).appends

/-- **Every call is a sequence of steps.** -/
theorem exec_changes {sha256 : Digest} {now : Nat} {c : Conn Store StoreError} (hb : c.db.Bounded)
    (op : Op) : Did (Changes sha256) c.db (op.exec sha256 now c) := by
  have hrefl : ∀ s, Changes sha256 s s := fun _ => ReflTransGen.refl
  cases op with
  | append op =>
    have hd : Did (Appends sha256) c.db (op.exec sha256 now c) := exec_appends hb op
    exact ⟨hd.steps.changes, hd.allocated⟩
  | update entry =>
    refine did_quiet hrefl (transaction_settled _ c) fun _ s' h => ?_
    exact ReflTransGen.single (updateBody_change h)
  | delete entryId =>
    refine did_quiet hrefl (transaction_settled _ c) fun _ s' h => ?_
    exact ReflTransGen.single (deleteBody_change h)

end Store

/-! ## Runs -/

namespace History

open Store

theorem run_concat (sha256 : Digest) (events : List (Event Op)) (e : Event Op) :
    run sha256 (events ++ [e]) = (run sha256 events).step sha256 e := by
  unfold run
  rw [List.foldl_append]
  rfl

/-- What a call leaves in the store. -/
theorem step_store (sha256 : Digest) (h : History) (e : Event Op) :
    (h.step sha256 e).store = (e.op.exec sha256 e.now ⟨h.store, e.fault⟩).2.db := by
  unfold step
  split
  · rename_i heq
    rw [heq]
  · rename_i heq
    rw [heq]

/-- **A run is a sequence of steps.** -/
theorem run_changes (sha256 : Digest) (events : List (Event Op)) :
    Changes sha256 Store.empty (run sha256 events).store := by
  induction events using List.reverseRecOn with
  | nil => exact ReflTransGen.refl
  | append_singleton events e ih =>
    rw [run_concat, step_store]
    exact ih.trans (exec_changes (c := ⟨_, e.fault⟩) (ih.bounded empty_bounded) e.op).steps

/-- A run of operations that keep the chain is a sequence of their steps. -/
theorem run_appends (sha256 : Digest) (events : List (Event AppendOp)) :
    Appends sha256 Store.empty (run sha256 (events.map (Event.map Op.append))).store := by
  induction events using List.reverseRecOn with
  | nil => exact ReflTransGen.refl
  | append_singleton events e ih =>
    rw [List.map_append, List.map_singleton, run_concat, step_store]
    have hb := ih.changes.bounded empty_bounded
    exact ih.trans (exec_appends (c := ⟨_, e.fault⟩) hb e.op).steps

/-- **Every id in the table was handed out.** -/
theorem run_bounded (sha256 : Digest) (events : List (Event Op)) :
    (run sha256 events).store.Bounded := (run_changes sha256 events).bounded empty_bounded

end History

end Unimatrix
