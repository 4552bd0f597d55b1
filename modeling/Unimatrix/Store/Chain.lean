import Unimatrix.Store.ChainVerify
import Unimatrix.Store.Changes

/-!
# The hash chain over whole runs

`Linked` says that every row's content hash is the hash of its text and that its chain columns fit the
row it supersedes. A step that keeps the chain never changes the chain columns of a row
(`Append.keeps`), so a link made once fits for good (`Append.linked`).

* **`run_chain_verified`**: after every run of the operations that keep the chain, the verifier
  reports nothing, every `supersedes` names an older entry whose hash and version the link carries,
  and following `supersedes` never comes back.
-/

namespace Unimatrix

open Relation

namespace Store

/-- The chain invariant. -/
structure Linked (sha256 : Digest) (s : Store) : Prop where
  hashed : ∀ id row, s.entries.lookup id = some row →
    row.contentHash = computeContentHash sha256 row.title row.content
  linked : ∀ id row, s.entries.lookup id = some row → RowLinked s id row

theorem empty_linked (sha256 : Digest) : empty.Linked sha256 where
  hashed id row h := by cases h
  linked id row h := by cases h

/-! ## One step -/

/-- **A row keeps its chain columns.** -/
theorem Append.keeps {sha256 : Digest} {s s' : Store} (h : Append sha256 s s') {p : Nat}
    {pred : EntryRow} (hp : s.entries.lookup p = some pred) :
    ∃ pred', s'.entries.lookup p = some pred' ∧ pred'.links = pred.links := by
  cases h with
  | same he _ => exact ⟨pred, by rw [he]; exact hp, rfl⟩
  | alloc _ _ he => exact ⟨pred, by rw [he]; exact hp, rfl⟩
  | edit id row row' hl he hk _ =>
    rw [he, HashMap.lookup_insert_eq]
    by_cases hpid : p = id
    · subst hpid
      obtain rfl : pred = row := Option.some.inj (hp.symm.trans hl)
      exact ⟨row', if_pos rfl, hk⟩
    · exact ⟨pred, (if_neg hpid).trans hp, rfl⟩
  | create id row hnone _ he _ _ _ =>
    have hpid : p ≠ id := by
      intro heq
      rw [heq, hnone] at hp
      cases hp
    rw [he, HashMap.lookup_insert_eq]
    exact ⟨pred, (if_neg hpid).trans hp, rfl⟩

/-- A row of the new store has the chain columns of an old one, or is linked to an old one. -/
theorem Append.origin {sha256 : Digest} {s s' : Store} (h : Append sha256 s s') {id : Nat}
    {row' : EntryRow} (hl : s'.entries.lookup id = some row') :
    (∃ row, s.entries.lookup id = some row ∧ row'.links = row.links) ∨
      (row'.contentHash = computeContentHash sha256 row'.title row'.content ∧
        RowLinked s id row') := by
  cases h with
  | same he _ => exact Or.inl ⟨row', by rw [← he]; exact hl, rfl⟩
  | alloc _ _ he => exact Or.inl ⟨row', by rw [← he]; exact hl, rfl⟩
  | edit i row new hrow he hk _ =>
    rw [he, HashMap.lookup_insert_eq] at hl
    split at hl
    · rename_i heq
      subst heq
      obtain rfl := Option.some.inj hl
      exact Or.inl ⟨row, hrow, hk⟩
    · exact Or.inl ⟨row', hl, rfl⟩
  | create i row _ _ he hhash hlink _ =>
    rw [he, HashMap.lookup_insert_eq] at hl
    split at hl
    · rename_i heq
      subst heq
      obtain rfl := Option.some.inj hl
      exact Or.inr ⟨hhash, hlink⟩
    · exact Or.inl ⟨row', hl, rfl⟩

/-- A link fits as long as the chain columns at both ends stand. -/
theorem RowLinked.transfer {s s' : Store} {id : Nat} {row row' : EntryRow}
    (h : RowLinked s id row) (hk : row'.links = row.links)
    (hkeep : ∀ p pred, s.entries.lookup p = some pred →
      ∃ pred', s'.entries.lookup p = some pred' ∧ pred'.links = pred.links) :
    RowLinked s' id row' := by
  have hsup : row'.supersedes = row.supersedes := congrArg Links.supersedes hk
  have hprev : row'.previousHash = row.previousHash := congrArg Links.previousHash hk
  have hver : row'.version = row.version := congrArg Links.version hk
  cases h with
  | genesis hs hp => exact RowLinked.genesis (hsup.trans hs) (hprev.trans hp)
  | follows p pred hs hlt hl hp hv =>
    obtain ⟨pred', hl', hk'⟩ := hkeep p pred hl
    have hhash : pred'.contentHash = pred.contentHash := congrArg Links.contentHash hk'
    have hpv : pred'.version = pred.version := congrArg Links.version hk'
    refine RowLinked.follows p pred' (hsup.trans hs) hlt hl' ?_ ?_
    · rw [hprev, hp, hhash]
    · rw [hver, hv, hpv]

/-- **A step that keeps the chain keeps the invariant.** -/
theorem Append.linked {sha256 : Digest} {s s' : Store} (h : Append sha256 s s')
    (hinv : s.Linked sha256) : s'.Linked sha256 := by
  constructor
  · intro id row' hl
    obtain ⟨row, hrow, hk⟩ | ⟨hhash, -⟩ := h.origin hl
    · have hc : row'.contentHash = row.contentHash := congrArg Links.contentHash hk
      have ht : row'.title = row.title := congrArg Links.title hk
      have hx : row'.content = row.content := congrArg Links.content hk
      rw [hc, ht, hx]
      exact hinv.hashed id row hrow
    · exact hhash
  · intro id row' hl
    obtain ⟨row, hrow, hk⟩ | ⟨-, hlink⟩ := h.origin hl
    · exact (hinv.linked id row hrow).transfer hk fun p pred hp => h.keeps hp
    · exact hlink.transfer rfl fun p pred hp => h.keeps hp

theorem Appends.linked {sha256 : Digest} {s s' : Store} (h : Appends sha256 s s')
    (hinv : s.Linked sha256) : s'.Linked sha256 := by
  induction h with
  | refl => exact hinv
  | tail _ h ih => exact h.linked ih

/-! ## What the invariant says of the records -/

/-- `e` names `p` as the entry it supersedes. -/
def Supersedes (s : Store) (o : HashMap.IterOrder Nat EntryRow) (a b : Nat) : Prop :=
  ∃ e ∈ s.allEntries o, e.id = a ∧ e.supersedes = some b

theorem find_eq_some {s : Store} {e : EntryRecord} :
    s.find e.id = some e ↔ ∃ row, s.entries.lookup e.id = some row ∧
      entryFromRow e.id row (s.tagsOf e.id) = e := Option.map_eq_some_iff

/-- An entry's predecessor is in the list, older, and what the link says it is. -/
theorem Linked.predecessor {sha256 : Digest} {s : Store} (h : s.Linked sha256)
    (o : HashMap.IterOrder Nat EntryRow) {e : EntryRecord} (he : e ∈ s.allEntries o) {p : Nat}
    (hp : e.supersedes = some p) :
    ∃ pred ∈ s.allEntries o, pred.id = p ∧ p < e.id ∧ e.previousHash = pred.contentHash ∧
      e.version = pred.version + 1 := by
  obtain ⟨row, hl, hrow⟩ := find_eq_some.mp (mem_allEntries.mp he)
  have hsup : row.supersedes = some p := (congrArg EntryRecord.supersedes hrow).trans hp
  have hprev : row.previousHash = e.previousHash := congrArg EntryRecord.previousHash hrow
  have hver : row.version = e.version := congrArg EntryRecord.version hrow
  cases h.linked e.id row hl with
  | genesis hs _ =>
    rw [hs] at hsup
    cases hsup
  | follows q pred hs hlt hpl hph hpv =>
    obtain rfl : q = p := Option.some.inj (hs.symm.trans hsup)
    refine ⟨entryFromRow q pred (s.tagsOf q), ?_, rfl, hlt, ?_, ?_⟩
    · refine mem_allEntries.mpr (find_eq_some.mpr ⟨pred, hpl, rfl⟩)
    · rw [← hprev]
      exact hph
    · rw [← hver]
      exact hpv

/-- **The verifier reports nothing** on the entries of a store that keeps the invariant. -/
theorem Linked.isClean {sha256 : Digest} {s : Store} (h : s.Linked sha256)
    (o : HashMap.IterOrder Nat EntryRow) :
    (verifyEntries sha256 (s.allEntries o)).isClean = true := by
  refine isClean_iff.mpr fun e he => ?_
  obtain ⟨row, hl, hrow⟩ := find_eq_some.mp (mem_allEntries.mp he)
  constructor
  · rw [← hrow]
    exact h.hashed e.id row hl
  · cases hsup : e.supersedes with
    | none =>
      refine Or.inl ?_
      have hrs : row.supersedes = none := (congrArg EntryRecord.supersedes hrow).trans hsup
      rw [← hrow]
      cases h.linked e.id row hl with
      | genesis _ hp => exact hp
      | follows q pred hs _ _ _ _ =>
        rw [hrs] at hs
        cases hs
    | some p =>
      obtain ⟨pred, hmem, hid, -, hph, -⟩ := h.predecessor o he hsup
      refine Or.inr ⟨p, pred, hsup, ?_, hph.symm⟩
      exact (lookup_chainIndex (allEntries_ids_nodup s o)).mpr ⟨hmem, hid⟩

/-- Following `supersedes` goes down. -/
theorem Linked.supersedes_lt {sha256 : Digest} {s : Store} (h : s.Linked sha256)
    (o : HashMap.IterOrder Nat EntryRow) {a b : Nat} (hab : TransGen (Supersedes s o) a b) :
    b < a := by
  induction hab with
  | single hstep =>
    obtain ⟨e, he, rfl, hp⟩ := hstep
    obtain ⟨-, -, -, hlt, -⟩ := h.predecessor o he hp
    exact hlt
  | tail _ hstep ih =>
    obtain ⟨e, he, rfl, hp⟩ := hstep
    obtain ⟨-, -, -, hlt, -⟩ := h.predecessor o he hp
    exact Nat.lt_trans hlt ih

end Store

/-! ## Runs -/

namespace History

open Store

/-- **The chain of every reachable store verifies**, its links are what they should be, and no entry
supersedes itself through others. -/
theorem run_chain_verified (sha256 : Digest) (events : List (Event AppendOp))
    (o : HashMap.IterOrder Nat EntryRow) :
    let s := (run sha256 (events.map (Event.map Op.append))).store
    (verifyEntries sha256 (s.allEntries o)).violations = [] ∧
      (∀ e ∈ s.allEntries o, ∀ p, e.supersedes = some p →
        ∃ pred ∈ s.allEntries o, pred.id = p ∧ p < e.id ∧ e.previousHash = pred.contentHash ∧
          e.version = pred.version + 1) ∧
      ∀ a, ¬ TransGen (Supersedes s o) a a := by
  intro s
  have hl := (run_appends sha256 events).linked (empty_linked sha256)
  refine ⟨List.isEmpty_iff.mp (hl.isClean o), ?_, ?_⟩
  · intro e he p hp
    exact hl.predecessor o he hp
  · intro a ha
    exact Nat.lt_irrefl a (hl.supersedes_lt o ha)

/-- A new entry with this text. -/
def sampleNew (title content : String) : NewEntry where
  title
  content
  topic := "t"
  category := "c"
  tags := ["x"]
  source := "s"
  status := .active
  createdBy := "agent"
  featureCycle := ""
  trustSource := ""

example : ((run (fun _ => Vector.replicate 32 0) [⟨.append (.insert (sampleNew "a" "b")), 5, none⟩,
      ⟨.append (.correctEntry 1 (sampleNew "a" "c") 7 384), 6, some (2, .database)⟩,
      ⟨.append (.correctEntry 1 (sampleNew "a" "c") 7 384), 6, none⟩]).store.allEntries
        HashMap.IterOrder.stored).map (fun e => (e.id, e.status, e.supersedes, e.version)) =
    [(2, .active, some 1, 2), (1, .deprecated, none, 1)] := by decide +kernel

end History

end Unimatrix
