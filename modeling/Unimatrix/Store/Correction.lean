import Unimatrix.Store.Changes

/-!
# What a correction commits

`correct_entry` checks the original, allocates an id and sends eight kinds of write in one transaction; the
two records it returns are built in memory, beside the values it binds.

* `run_correctEntryBody_eq`: what the transaction leaves, table by table.
* **`correctEntry_commits_or_nothing`**: an error leaves the store as it was; an `Ok` adds one entry,
  changes four columns of the original, and returns what the two rows hold (`Corrected`).
* `correctEntry_refused`: the refusals, with their texts.
-/

namespace Unimatrix

open Txn

namespace Store

/-! ## Tags -/

/-- Writing tags appends them. None of them was there, and none comes twice. -/
theorem run_insertTags_append {id : Nat} :
    ∀ {tags : List String} {s s' : Store} {u : PUnit}, Run (tags.forM (insertTag id)) s u s' →
      s' = { s with entryTags := s.entryTags ++ tags.map fun tag => (id, tag) } ∧ tags.Nodup ∧
        ∀ tag ∈ tags, (id, tag) ∉ s.entryTags
  | [], s, s', u, h => by
    have hp : Run (pure () : StoreTxn PUnit) s u s' := h
    refine ⟨?_, List.nodup_nil, fun tag ht => absurd ht List.not_mem_nil⟩
    rw [hp.ret.2, List.map_nil, List.append_nil]
  | tag :: tags, s, s', u, h => by
    have hb : Run (insertTag id tag >>= fun _ => tags.forM (insertTag id)) s u s' := h
    obtain ⟨_, s₁, h₁, h⟩ := hb.bind
    have hs := Run.statement h₁
    split at hs
    · cases hs
    · rename_i hok
      cases hs
      obtain ⟨rfl, hnd, hfresh⟩ := run_insertTags_append h
      have hnew : (id, tag) ∉ s.entryTags := fun hm => hok (Or.inr hm)
      have hout : tag ∉ tags := fun hm =>
        hfresh tag hm (List.mem_append_right _ (List.mem_singleton.mpr rfl))
      refine ⟨?_, List.nodup_cons.mpr ⟨hout, hnd⟩, fun t ht => ?_⟩
      · simp only [List.map_cons, List.append_assoc, List.singleton_append]
      · rcases List.mem_cons.mp ht with rfl | ht
        · exact hnew
        · exact fun hm => hfresh t ht (List.mem_append_left _ hm)

/-- The tags of the other entries are not touched by new tags of `id`. -/
theorem tagsOf_append_of_ne {s s' : Store} {id other : Nat} {tags : List String}
    (h : s'.entryTags = s.entryTags ++ tags.map fun tag => (id, tag)) (hne : other ≠ id) :
    s'.tagsOf other = s.tagsOf other := by
  unfold tagsOf
  have hnone : (tags.map fun tag => (id, tag)).filter (fun t => decide (t.1 = other)) = [] := by
    rw [List.filter_eq_nil_iff]
    intro t ht
    obtain ⟨tag, -, rfl⟩ := List.mem_map.mp ht
    simpa using Ne.symm hne
  rw [h, List.filter_append, hnone, List.append_nil]

/-- An entry that had no tag has the new ones. -/
theorem tagsOf_append_self {s s' : Store} {id : Nat} {tags : List String}
    (h : s'.entryTags = s.entryTags ++ tags.map fun tag => (id, tag))
    (hnone : ∀ t ∈ s.entryTags, t.1 ≠ id) :
    s'.tagsOf id = tags.mergeSort fun a b => decide (a ≤ b) := by
  unfold tagsOf
  have hold : s.entryTags.filter (fun t => decide (t.1 = id)) = [] := by
    rw [List.filter_eq_nil_iff]
    intro t ht
    simpa using hnone t ht
  have hnew : (tags.map fun tag => (id, tag)).filter (fun t => decide (t.1 = id)) =
      tags.map fun tag => (id, tag) := by
    rw [List.filter_eq_self]
    intro t ht
    obtain ⟨tag, -, rfl⟩ := List.mem_map.mp ht
    simp
  rw [h, List.filter_append, hold, hnew, List.nil_append, List.map_map]
  congr 1
  exact List.map_id tags

/-! ## The transaction -/

/-- What `checkCorrectable` lets through. -/
def Correctable (status : Status) (contentHash : String) : Prop :=
  status ≠ .deprecated ∧ status ≠ .quarantined ∧ contentHash.isEmpty = false

instance (status : Status) (contentHash : String) : Decidable (Correctable status contentHash) :=
  inferInstanceAs (Decidable (_ ∧ _ ∧ _))

theorem run_checkCorrectable_correctable {original : EntryRecord} {s s' : Store} {u : Unit}
    (h : Run (checkCorrectable original) s u s') :
    Correctable original.status original.contentHash := by
  obtain ⟨_, s₁, h₁, h⟩ := Run.bind h
  obtain ⟨_, s₂, h₂, h⟩ := Run.bind h
  exact ⟨by simpa using h₁.reject.1, by simpa using h₂.reject.1, by simpa using h.reject.1⟩

/-- The counters `correct_entry` leaves: an allocated id, the original's move, the new entry. -/
def correctionCounters (allocated : Counters) (old new : Status) : Counters :=
  ((allocated.decrement (statusCounterKey old) 1).increment
    (statusCounterKey .deprecated) 1).increment (statusCounterKey new) 1

/-- **What the transaction of `correct_entry` leaves**, table by table, and what it returns. -/
theorem run_correctEntryBody_eq {sha256 : Digest} {originalId : Nat} {correction : NewEntry}
    {newDataId : Nat} {dim : UInt16} {now : Nat} {s s' : Store} {r : EntryRecord × EntryRecord}
    (h : Run (correctEntryBody sha256 originalId correction newDataId dim now) s r s') :
    ∃ row newId allocated, s.entries.lookup originalId = some row ∧
      Correctable row.status row.contentHash ∧
      s.counters.next "next_entry_id" = .ok (newId, allocated) ∧ s.entries.lookup newId = none ∧
      newId ≠ originalId ∧ correction.tags.Nodup ∧
      s' =
        { entries := (s.entries.insert originalId (deprecatedBy newId now row)).insert newId
            (correctionRow sha256 originalId (entryFromRow originalId row (s.tagsOf originalId))
              correction dim now)
          entryTags := s.entryTags ++ correction.tags.map fun tag => (newId, tag)
          vectorMap := s.vectorMap.insert newId newDataId
          counters := correctionCounters allocated row.status correction.status } ∧
      r.1 = entryFromRow originalId (deprecatedBy newId now row) (s.tagsOf originalId) ∧
      r.2 = entryFromRow newId
        (correctionRow sha256 originalId (entryFromRow originalId row (s.tagsOf originalId))
          correction dim now) correction.tags := by
  obtain ⟨row, s₁, hf, h⟩ := Run.bind h
  obtain ⟨hl, hs₁⟩ := run_fetchRow hf
  obtain ⟨tags, s₂, hq, h⟩ := Run.bind h
  obtain ⟨htags, hs₂⟩ := hq.query
  rw [hs₁] at htags hs₂
  obtain ⟨_, s₃, hcheck, h⟩ := Run.bind h
  have hok := run_checkCorrectable_correctable hcheck
  have hs₃ : s₃ = s := by rw [run_checkCorrectable hcheck, hs₂]
  obtain ⟨newId, s₄, hn, h⟩ := Run.bind h
  rw [hs₃] at hn
  obtain ⟨allocated, hnext, hs₄⟩ := run_nextEntryId hn
  obtain ⟨_, s₅, hu, h⟩ := Run.bind h
  have hl₄ : s₄.entries.lookup originalId = some row := by rw [hs₄]; exact hl
  have hs₅ := (Run.update hu).trans (setRow_of_some hl₄ _)
  obtain ⟨_, s₆, hm, h⟩ := Run.bind h
  have hs₆ := run_moveStatus hm
  obtain ⟨_, s₇, hi, h⟩ := Run.bind h
  obtain ⟨hnone, hs₇⟩ := run_insertRow hi
  have he₆ : s₆.entries = s.entries.insert originalId (deprecatedBy newId now row) := by
    rw [hs₆, hs₅, hs₄]
  rw [he₆, HashMap.lookup_insert_eq] at hnone
  obtain ⟨_, s₈, ht, h⟩ := Run.bind h
  obtain ⟨hs₈, hnd, -⟩ := run_insertTags_append ht
  obtain ⟨_, s₉, hv, h⟩ := Run.bind h
  have hs₉ := Run.update hv
  obtain ⟨_, s₁₀, hc, h⟩ := Run.bind h
  have hs₁₀ := run_incrementCounter hc
  obtain ⟨hr, hs'⟩ := h.ret
  split at hnone
  · cases hnone
  · rename_i hne
    refine ⟨row, newId, allocated, hl, hok, hnext, hnone, hne, hnd, ?_, ?_, ?_⟩
    · rw [hs', hs₁₀, hs₉, hs₈, hs₇, hs₆, hs₅, hs₄, htags]
      rfl
    · rw [hr, htags]
      have hcount : (row.correctionCount + 1).toUInt32 = row.correctionCount.toUInt32 + 1 :=
        UInt32.ofNat_add row.correctionCount 1
      simp only [entryFromRow, deprecatedBy, hcount]
    · rw [hr, htags]

/-! ## A call -/

/-- Every stored tag belongs to an entry: the foreign key of `entry_tags`. -/
def TagsOwned (s : Store) : Prop := ∀ t ∈ s.entryTags, (s.entries.lookup t.1).isSome

/-- An id that no entry has owns no tag. -/
theorem TagsOwned.fresh {s : Store} (h : s.TagsOwned) {id : Nat} (hnone : s.entries.lookup id = none) :
    ∀ t ∈ s.entryTags, t.1 ≠ id := by
  intro t ht heq
  have hsome := h t ht
  rw [heq, hnone] at hsome
  cases hsome

/-- The entry exists and passes the checks. -/
def CanCorrect (s : Store) (originalId : Nat) : Prop :=
  ∃ row, s.entries.lookup originalId = some row ∧ Correctable row.status row.contentHash

/-- What a call that returned `p` did: `s` before, `s'` after. -/
structure Corrected (originalId : Nat) (correction : NewEntry) (newDataId now : Nat) (s s' : Store)
    (p : EntryRecord × EntryRecord) : Prop where
  canCorrect : s.CanCorrect originalId
  /-- Exactly one entry is added. -/
  fresh : s.entries.lookup p.2.id = none
  ids : ∀ id, (s'.entries.lookup id).isSome ↔ (s.entries.lookup id).isSome ∨ id = p.2.id
  /-- Every other entry is unchanged, with its tags. -/
  others : ∀ id, id ≠ originalId → id ≠ p.2.id → s'.find id = s.find id
  /-- The original changes in four columns. -/
  original : ∀ row, s.entries.lookup originalId = some row →
    s'.entries.lookup originalId = some { row with
      status := .deprecated
      supersededBy := some p.2.id
      correctionCount := row.correctionCount + 1
      updatedAt := now }
  originalTags : s'.tagsOf originalId = s.tagsOf originalId
  /-- The records returned are what the rows hold. -/
  returnedOriginal : s'.find originalId = some p.1
  returnedNew : ∃ row, s'.entries.lookup p.2.id = some row ∧ p.2 = entryFromRow p.2.id row p.2.tags
  newTags : p.2.tags = correction.tags ∧ p.2.tags.Nodup ∧
    s'.entryTags = s.entryTags ++ p.2.tags.map fun tag => (p.2.id, tag)
  foundNew : s.TagsOwned → s'.find p.2.id =
    some { p.2 with tags := p.2.tags.mergeSort fun a b => decide (a ≤ b) }
  vector : s'.vectorMap = s.vectorMap.insert p.2.id newDataId
  counters : ∃ row allocated, s.entries.lookup originalId = some row ∧
    s.counters.next "next_entry_id" = .ok (p.2.id, allocated) ∧
    s'.counters = correctionCounters allocated row.status correction.status

theorem find_of_lookup {s : Store} {id : Nat} {row : EntryRow} (h : s.entries.lookup id = some row) :
    s.find id = some (entryFromRow id row (s.tagsOf id)) := by
  unfold find
  rw [h]
  rfl

/-- A run of the transaction did what a correction does. -/
theorem corrected_of_run {sha256 : Digest} {originalId : Nat} {correction : NewEntry}
    {newDataId : Nat} {dim : UInt16} {now : Nat} {s s' : Store} {p : EntryRecord × EntryRecord}
    (h : Run (correctEntryBody sha256 originalId correction newDataId dim now) s p s') :
    Corrected originalId correction newDataId now s s' p := by
  obtain ⟨row, newId, allocated, hl, hok, hnext, hnone, hne, hnd, hs', hp₁, hp₂⟩ :=
    run_correctEntryBody_eq h
  obtain ⟨p₁, p₂⟩ := p
  have hid : p₂.id = newId := by rw [show p₂ = _ from hp₂]; rfl
  have htags : p₂.tags = correction.tags := by rw [show p₂ = _ from hp₂]; rfl
  have hrows : ∀ id, s'.entries.lookup id = if id = newId then
      some (correctionRow sha256 originalId (entryFromRow originalId row (s.tagsOf originalId))
        correction dim now)
      else if id = originalId then some (deprecatedBy newId now row) else s.entries.lookup id := by
    intro id
    rw [hs', HashMap.lookup_insert_eq, HashMap.lookup_insert_eq]
  have happ : s'.entryTags = s.entryTags ++ correction.tags.map fun tag => (newId, tag) := by
    rw [hs']
  have horig : s'.entries.lookup originalId = some (deprecatedBy newId now row) := by
    rw [hrows, if_neg hne.symm, if_pos rfl]
  have hnew := hrows newId
  rw [if_pos rfl] at hnew
  have hkept : s'.tagsOf originalId = s.tagsOf originalId := tagsOf_append_of_ne happ hne.symm
  subst hid
  exact {
    canCorrect := ⟨row, hl, hok⟩
    fresh := hnone
    ids := fun id => by
      rw [hrows]
      split
      · rename_i hid
        exact ⟨fun _ => .inr hid, fun _ => rfl⟩
      · rename_i hid
        split
        · rename_i ho
          rw [ho, hl]
          exact ⟨fun _ => .inl rfl, fun _ => rfl⟩
        · exact ⟨.inl, fun h => h.resolve_right hid⟩
    others := fun id ho hid => by
      unfold find
      rw [hrows, if_neg hid, if_neg ho, tagsOf_append_of_ne happ hid]
    original := fun row' hl' => by
      rw [hl] at hl'
      cases hl'
      exact horig
    originalTags := hkept
    returnedOriginal := by
      rw [find_of_lookup horig, hkept]
      exact congrArg some hp₁.symm
    returnedNew := ⟨_, hnew, by rw [htags]; exact hp₂⟩
    newTags := ⟨htags, htags ▸ hnd, htags ▸ happ⟩
    foundNew := fun howned => by
      rw [find_of_lookup hnew, tagsOf_append_self happ (howned.fresh hnone), htags]
      refine congrArg some ?_
      rw [show p₂ = _ from hp₂]
      rfl
    vector := by rw [hs']
    counters := ⟨row, allocated, hl, hnext, by rw [hs']⟩ }

/-- **A correction is all or nothing.** An error of any kind leaves the whole store as it was, an entry
that cannot be corrected gives one, and what an `Ok` did is `Corrected`. -/
theorem correctEntry_commits_or_nothing (sha256 : Digest) (originalId : Nat) (correction : NewEntry)
    (newDataId : Nat) (dim : UInt16) (now : Nat) (c : Conn Store StoreError) :
    (∀ e, (correctEntry sha256 originalId correction newDataId dim now c).1 = .error e →
      (correctEntry sha256 originalId correction newDataId dim now c).2.db = c.db) ∧
    (¬ c.db.CanCorrect originalId →
      ∃ e, (correctEntry sha256 originalId correction newDataId dim now c).1 = .error e) ∧
    ∀ p, (correctEntry sha256 originalId correction newDataId dim now c).1 = .ok p →
      Corrected originalId correction newDataId now c.db
        (correctEntry sha256 originalId correction newDataId dim now c).2.db p := by
  have hs := transaction_settled (correctEntryBody sha256 originalId correction newDataId dim now) c
  unfold correctEntry
  generalize transaction (correctEntryBody sha256 originalId correction newDataId dim now) c = r at hs ⊢
  cases hs with
  | failed e => exact ⟨fun _ _ => rfl, fun _ => ⟨e, rfl⟩, fun p h => by cases h⟩
  | committed p c' h =>
    have hdone := corrected_of_run h
    refine ⟨fun e he => (by cases he), fun hnot => absurd hdone.canCorrect hnot, fun p' hp => ?_⟩
    cases hp
    exact hdone

/-- The error `correct_entry` gives for an entry that cannot be corrected; `none` is an entry that does
not exist. -/
def correctionRefusal (originalId : Nat) : Option EntryRow → StoreError
  | none => .entryNotFound originalId
  | some row =>
    if row.status = .deprecated then
      .invalidInput "original_id" "cannot correct a deprecated entry"
    else if row.status = .quarantined then
      .invalidInput "original_id" "cannot correct quarantined entry; restore first"
    else .invalidInput "original_id" (emptyHashReason originalId)

theorem refuses_checkCorrectable {s : Store} {id : Nat} {row : EntryRow} {tags : List String}
    (h : ¬ Correctable row.status row.contentHash) :
    Refuses (checkCorrectable (entryFromRow id row tags)) s (correctionRefusal id (some row)) := by
  unfold checkCorrectable
  simp only [correctionRefusal]
  by_cases hd : row.status = .deprecated
  · rw [if_pos hd]
    exact (Refuses.reject s (by simpa [entryFromRow] using hd)).bind
  · rw [if_neg hd]
    refine (Passes.reject s (by simpa [entryFromRow] using hd)).refuses ?_
    by_cases hq : row.status = .quarantined
    · rw [if_pos hq]
      exact (Refuses.reject s (by simpa [entryFromRow] using hq)).bind
    · rw [if_neg hq]
      refine (Passes.reject s (by simpa [entryFromRow] using hq)).refuses (Refuses.reject s ?_)
      simpa [entryFromRow, Correctable, hd, hq] using h

/-- **An entry that cannot be corrected is refused**, with the text for its reason, when no statement
fails. -/
theorem correctEntry_refused {sha256 : Digest} {originalId : Nat} {correction : NewEntry}
    {newDataId : Nat} {dim : UInt16} {now : Nat} {s : Store} (h : ¬ s.CanCorrect originalId) :
    correctEntry sha256 originalId correction newDataId dim now ⟨s, none⟩ =
      (.error (correctionRefusal originalId (s.entries.lookup originalId)), ⟨s, none⟩) := by
  refine Refuses.transaction ?_
  have hread := Passes.query (ε := StoreError) (fun s : Store => s.entries.lookup originalId) s
  cases hl : s.entries.lookup originalId with
  | none => exact (hread.refuses (Refuses.okOr s hl)).bind
  | some row =>
    have hrow : ¬ Correctable row.status row.contentHash := fun hok => h ⟨row, hl, hok⟩
    refine (hread.bind (Passes.okOr s hl)).refuses ?_
    exact (Passes.query _ s).refuses (refuses_checkCorrectable hrow).bind

end Store

end Unimatrix
