import Unimatrix.Store.Hash
import Unimatrix.Store.Schema

/-!
# Verifying the hash chain

Model of `chain_verify.rs`: `verify_entries` recomputes every content hash and resolves every populated
`previous_hash` through `supersedes`. The report's texts (`describe`) are left out.

* **`verifyEntries_violations`**: the violations are those of each entry, in order; `checked` is the
  number of entries.
* `isClean_iff`: a report is clean iff every entry's hash and link check out (`Verified`).
* **`tamper_reported_iff`**: after a text is replaced the report names its entry iff the text that is
  hashed changed. `separator_moved_unseen`: a title and a content can trade the text around a `": "`.
-/

namespace Unimatrix

open HashMap

/-! ## The verifier -/

/-- `ViolationKind`. -/
inductive ViolationKind where
  | contentHashMismatch (computed stored : String)
  | chainLinkMismatch (predecessorId : Nat) (expected found : String)
  | missingPredecessor (predecessorId : Nat)
  | danglingPreviousHash
  deriving DecidableEq, Repr

/-- `ChainViolation`. -/
structure ChainViolation where
  entryId : Nat
  kind : ViolationKind
  deriving DecidableEq, Repr

/-- `ChainReport`. -/
structure ChainReport where
  checked : Nat
  skippedLegacy : Nat
  violations : List ChainViolation
  deriving DecidableEq, Repr

namespace ChainReport

/-- `ChainReport::is_clean`. -/
def isClean (r : ChainReport) : Bool := r.violations.isEmpty

/-- `report.violations.push(..)`. -/
def push (r : ChainReport) (entryId : Nat) (kind : ViolationKind) : ChainReport :=
  { r with violations := r.violations ++ [⟨entryId, kind⟩] }

end ChainReport

/-- The index of `verify_entries`: the last entry of each id. -/
def chainIndex (entries : List EntryRecord) : HashMap Nat EntryRecord :=
  collect (entries.map fun e => (e.id, e))

/-- Step (1): recompute the content hash. -/
def checkContent (sha256 : Digest) (e : EntryRecord) (report : ChainReport) : ChainReport :=
  let computed := computeContentHash sha256 e.title e.content
  if computed ≠ e.contentHash then report.push e.id (.contentHashMismatch computed e.contentHash)
  else report

/-- Step (2): resolve the link. An empty one is a legacy or first entry. -/
def checkLink (index : HashMap Nat EntryRecord) (e : EntryRecord) (report : ChainReport) :
    ChainReport :=
  if e.previousHash.isEmpty then { report with skippedLegacy := report.skippedLegacy + 1 }
  else match e.supersedes with
    | none => report.push e.id .danglingPreviousHash
    | some predId => match index.lookup predId with
      | none => report.push e.id (.missingPredecessor predId)
      | some pred =>
        if pred.contentHash ≠ e.previousHash then
          report.push e.id (.chainLinkMismatch predId pred.contentHash e.previousHash)
        else report

/-- The loop body of `verify_entries`. -/
def verifyEntry (sha256 : Digest) (index : HashMap Nat EntryRecord) (report : ChainReport)
    (e : EntryRecord) : ChainReport :=
  checkLink index e (checkContent sha256 e { report with checked := report.checked + 1 })

/-- `verify_entries`. -/
def verifyEntries (sha256 : Digest) (entries : List EntryRecord) : ChainReport :=
  entries.foldl (verifyEntry sha256 (chainIndex entries)) ⟨0, 0, []⟩

/-! ## What one entry contributes -/

/-- The violation step (1) records. -/
def contentViolations (sha256 : Digest) (e : EntryRecord) : List ChainViolation :=
  (checkContent sha256 e ⟨0, 0, []⟩).violations

/-- The violation step (2) records. -/
def linkViolations (index : HashMap Nat EntryRecord) (e : EntryRecord) : List ChainViolation :=
  (checkLink index e ⟨0, 0, []⟩).violations

theorem checkContent_violations (sha256 : Digest) (e : EntryRecord) (r : ChainReport) :
    (checkContent sha256 e r).violations = r.violations ++ contentViolations sha256 e := by
  by_cases h : computeContentHash sha256 e.title e.content = e.contentHash <;>
    simp [contentViolations, checkContent, ChainReport.push, h]

theorem checkContent_checked (sha256 : Digest) (e : EntryRecord) (r : ChainReport) :
    (checkContent sha256 e r).checked = r.checked := by
  by_cases h : computeContentHash sha256 e.title e.content = e.contentHash <;>
    simp [checkContent, ChainReport.push, h]

theorem checkLink_violations (index : HashMap Nat EntryRecord) (e : EntryRecord) (r : ChainReport) :
    (checkLink index e r).violations = r.violations ++ linkViolations index e := by
  unfold linkViolations checkLink ChainReport.push
  split
  · simp
  · split
    · simp
    · split
      · simp
      · split <;> simp

theorem checkLink_checked (index : HashMap Nat EntryRecord) (e : EntryRecord) (r : ChainReport) :
    (checkLink index e r).checked = r.checked := by
  unfold checkLink ChainReport.push
  split
  · rfl
  · split
    · rfl
    · split
      · rfl
      · split <;> rfl

theorem foldl_verifyEntry (sha256 : Digest) (index : HashMap Nat EntryRecord) :
    ∀ (entries : List EntryRecord) (r : ChainReport),
      (entries.foldl (verifyEntry sha256 index) r).violations = r.violations ++
          entries.flatMap (fun e => contentViolations sha256 e ++ linkViolations index e) ∧
        (entries.foldl (verifyEntry sha256 index) r).checked = r.checked + entries.length
  | [], r => by simp
  | e :: entries, r => by
    obtain ⟨hv, hc⟩ := foldl_verifyEntry sha256 index entries (verifyEntry sha256 index r e)
    rw [List.foldl_cons, hv, hc]
    unfold verifyEntry
    rw [checkLink_violations, checkContent_violations, checkLink_checked, checkContent_checked]
    constructor
    · simp
    · simp only [List.length_cons]
      omega

/-- **The violations are those of each entry, in order.** -/
theorem verifyEntries_violations (sha256 : Digest) (entries : List EntryRecord) :
    (verifyEntries sha256 entries).violations =
      entries.flatMap fun e => contentViolations sha256 e ++ linkViolations (chainIndex entries) e :=
  (foldl_verifyEntry sha256 (chainIndex entries) entries ⟨0, 0, []⟩).1

theorem verifyEntries_checked (sha256 : Digest) (entries : List EntryRecord) :
    (verifyEntries sha256 entries).checked = entries.length := by
  have h := (foldl_verifyEntry sha256 (chainIndex entries) entries ⟨0, 0, []⟩).2
  rw [verifyEntries, h]
  exact Nat.zero_add _

/-! ## Clean reports -/

theorem contentViolations_eq_nil {sha256 : Digest} {e : EntryRecord} :
    contentViolations sha256 e = [] ↔
      e.contentHash = computeContentHash sha256 e.title e.content := by
  by_cases h : computeContentHash sha256 e.title e.content = e.contentHash
  · simp [contentViolations, checkContent, h]
  · simp [contentViolations, checkContent, ChainReport.push, h, Ne.symm h]

/-- An entry's populated link resolves to its predecessor's hash. -/
def LinkResolves (index : HashMap Nat EntryRecord) (e : EntryRecord) : Prop :=
  e.previousHash = "" ∨ ∃ p pred, e.supersedes = some p ∧ index.lookup p = some pred ∧
    pred.contentHash = e.previousHash

theorem linkViolations_eq_nil {index : HashMap Nat EntryRecord} {e : EntryRecord} :
    linkViolations index e = [] ↔ LinkResolves index e := by
  unfold linkViolations checkLink ChainReport.push LinkResolves
  by_cases hp : e.previousHash = ""
  · simp [hp]
  · cases hs : e.supersedes with
    | none => simp [hp]
    | some p =>
      cases hl : index.lookup p with
      | none => simp [hp, hl]
      | some pred =>
        by_cases hh : pred.contentHash = e.previousHash <;> simp [hp, hl, hh]

/-- **A report is clean iff every hash matches and every link resolves.** -/
theorem isClean_iff {sha256 : Digest} {entries : List EntryRecord} :
    (verifyEntries sha256 entries).isClean = true ↔
      ∀ e ∈ entries, e.contentHash = computeContentHash sha256 e.title e.content ∧
        LinkResolves (chainIndex entries) e := by
  unfold ChainReport.isClean
  rw [List.isEmpty_iff, verifyEntries_violations, List.flatMap_eq_nil_iff]
  simp only [List.append_eq_nil_iff, contentViolations_eq_nil, linkViolations_eq_nil]

theorem lookup_chainIndex {entries : List EntryRecord} (hids : (entries.map EntryRecord.id).Nodup)
    {id : Nat} {e : EntryRecord} :
    (chainIndex entries).lookup id = some e ↔ e ∈ entries ∧ e.id = id := by
  have hkeys : ((entries.map fun e => (e.id, e)).map Prod.fst).Nodup := by
    rw [List.map_map]
    exact hids
  unfold chainIndex
  rw [lookup_collect hkeys, List.mem_map]
  constructor
  · rintro ⟨e', he', heq⟩
    obtain ⟨rfl, rfl⟩ := Prod.mk.inj heq
    exact ⟨he', rfl⟩
  · rintro ⟨he, rfl⟩
    exact ⟨e, he, rfl⟩

/-- The verifier sees no difference between two entries. -/
structure SameChain (e e' : EntryRecord) : Prop where
  id : e'.id = e.id
  title : e'.title = e.title
  content : e'.content = e.content
  contentHash : e'.contentHash = e.contentHash
  previousHash : e'.previousHash = e.previousHash
  supersedes : e'.supersedes = e.supersedes

theorem SameChain.refl (e : EntryRecord) : SameChain e e := ⟨rfl, rfl, rfl, rfl, rfl, rfl⟩

theorem SameChain.symm {e e' : EntryRecord} (h : SameChain e e') : SameChain e' e :=
  ⟨h.id.symm, h.title.symm, h.content.symm, h.contentHash.symm, h.previousHash.symm, h.supersedes.symm⟩

/-- **A part of a clean list is clean** where it has the predecessors of its entries. -/
theorem isClean_of_sameChain {sha256 : Digest} {entries entries' : List EntryRecord}
    (hids' : (entries'.map EntryRecord.id).Nodup)
    (hpart : ∀ e' ∈ entries', ∃ e ∈ entries, SameChain e e')
    (hpred : ∀ e' ∈ entries', ∀ pred ∈ entries, e'.supersedes = some pred.id →
      ∃ pred' ∈ entries', SameChain pred pred')
    (hclean : (verifyEntries sha256 entries).isClean = true) :
    (verifyEntries sha256 entries').isClean = true := by
  rw [isClean_iff] at hclean ⊢
  intro e' he'
  obtain ⟨e, he, hsame⟩ := hpart e' he'
  obtain ⟨hhash, hlink⟩ := hclean e he
  refine ⟨by rw [hsame.contentHash, hsame.title, hsame.content, hhash], ?_⟩
  rcases hlink with hempty | ⟨p, pred, hs, hl, hprev⟩
  · exact .inl (hsame.previousHash.trans hempty)
  · have hmem := mem_of_lookup_collect hl
    obtain ⟨pred₀, hpred₀, heq⟩ := List.mem_map.mp hmem
    obtain ⟨hid, rfl⟩ := Prod.mk.inj heq
    have hs' : e'.supersedes = some pred₀.id := by rw [hsame.supersedes, hs, hid]
    obtain ⟨pred', hpred', hsame'⟩ := hpred e' he' pred₀ hpred₀ hs'
    refine .inr ⟨p, pred', hsame.supersedes.trans hs, ?_, ?_⟩
    · exact (lookup_chainIndex hids').mpr ⟨hpred', hsame'.id.trans hid⟩
    · rw [hsame'.contentHash, hprev, hsame.previousHash]

/-! ## Tampering -/

/-- Replace the text of the entry `id`; every stored hash stays. -/
def retext (id : Nat) (title content : String) (e : EntryRecord) : EntryRecord :=
  if e.id = id then { e with title := title, content := content } else e

/-- Replace the text of one entry of a list. -/
def replaceText (id : Nat) (title content : String) (entries : List EntryRecord) :
    List EntryRecord := entries.map (retext id title content)

@[simp] theorem retext_id (id : Nat) (title content : String) (e : EntryRecord) :
    (retext id title content e).id = e.id := by
  unfold retext
  split <;> rfl

@[simp] theorem retext_contentHash (id : Nat) (title content : String) (e : EntryRecord) :
    (retext id title content e).contentHash = e.contentHash := by
  unfold retext
  split <;> rfl

@[simp] theorem retext_previousHash (id : Nat) (title content : String) (e : EntryRecord) :
    (retext id title content e).previousHash = e.previousHash := by
  unfold retext
  split <;> rfl

@[simp] theorem retext_supersedes (id : Nat) (title content : String) (e : EntryRecord) :
    (retext id title content e).supersedes = e.supersedes := by
  unfold retext
  split <;> rfl

theorem lookup_chainIndex_replaceText (id : Nat) (title content : String)
    (entries : List EntryRecord) (p : Nat) :
    (chainIndex (replaceText id title content entries)).lookup p =
      ((chainIndex entries).lookup p).map (retext id title content) := by
  have hmap : (replaceText id title content entries).map (fun e => (e.id, e)) =
      (entries.map fun e => (e.id, e)).map fun e => (e.1, retext id title content e.2) := by
    unfold replaceText
    rw [List.map_map, List.map_map]
    refine List.map_congr_left fun e _ => ?_
    simp
  unfold chainIndex
  rw [hmap, lookup_collect_map]

/-- The links are made of stored hashes, so they resolve as before. -/
theorem linkResolves_retext {id : Nat} {title content : String} {entries : List EntryRecord}
    {e : EntryRecord} (h : LinkResolves (chainIndex entries) e) :
    LinkResolves (chainIndex (replaceText id title content entries)) (retext id title content e) := by
  rcases h with h | ⟨p, pred, hs, hl, hh⟩
  · exact Or.inl (by simp [h])
  · refine Or.inr ⟨p, retext id title content pred, by simp [hs], ?_, by simp [hh]⟩
    rw [lookup_chainIndex_replaceText, hl]
    rfl

/-- After a replacement in a clean list, the report lists mismatches of the replaced entries. -/
theorem mem_violations_replaceText {sha256 : Digest} {id : Nat} {title content : String}
    {entries : List EntryRecord} (hclean : (verifyEntries sha256 entries).isClean = true)
    {v : ChainViolation} :
    v ∈ (verifyEntries sha256 (replaceText id title content entries)).violations ↔
      ∃ e ∈ entries, v ∈ contentViolations sha256 (retext id title content e) := by
  rw [isClean_iff] at hclean
  rw [verifyEntries_violations, List.mem_flatMap]
  constructor
  · rintro ⟨e', he', hv⟩
    obtain ⟨e, he, rfl⟩ := List.mem_map.mp he'
    have hlink := linkViolations_eq_nil.mpr
      (@linkResolves_retext id title content entries e (hclean e he).2)
    rw [hlink, List.append_nil] at hv
    exact ⟨e, he, hv⟩
  · rintro ⟨e, he, hv⟩
    exact ⟨_, List.mem_map.mpr ⟨e, he, rfl⟩, List.mem_append_left _ hv⟩

theorem entryId_of_mem_contentViolations {sha256 : Digest} {e : EntryRecord} {v : ChainViolation}
    (h : v ∈ contentViolations sha256 e) : v.entryId = e.id := by
  by_cases hc : computeContentHash sha256 e.title e.content = e.contentHash
  · simp [contentViolations, checkContent, hc] at h
  · have hv : v = ⟨e.id, .contentHashMismatch (computeContentHash sha256 e.title e.content)
        e.contentHash⟩ := by
      simpa [contentViolations, checkContent, ChainReport.push, hc] using h
    rw [hv]

/-- The byte strings the content hashes of a list are computed from. -/
def hashedInputs (entries : List EntryRecord) : Set ByteArray :=
  {b | ∃ e ∈ entries, b = hashInput e.title e.content}

/-- **Tampering with a text is reported** exactly when the text that is hashed changed, if SHA-256
tells the texts involved apart. -/
theorem tamper_reported_iff {sha256 : Digest} {entries : List EntryRecord}
    (hids : (entries.map EntryRecord.id).Nodup)
    (hclean : (verifyEntries sha256 entries).isClean = true) {e : EntryRecord} (he : e ∈ entries)
    {title content : String}
    (hinj : Set.InjOn sha256 (insert (hashInput title content) (hashedInputs entries))) :
    (∃ v ∈ (verifyEntries sha256 (replaceText e.id title content entries)).violations,
        v.entryId = e.id) ↔
      hashText title content ≠ hashText e.title e.content := by
  have hnew : hashInput title content ∈ insert (hashInput title content) (hashedInputs entries) :=
    Set.mem_insert _ _
  have hold : hashInput e.title e.content ∈
      insert (hashInput title content) (hashedInputs entries) :=
    Set.mem_insert_of_mem _ ⟨e, he, rfl⟩
  have hstored := (isClean_iff.mp hclean e he).1
  have hself : retext e.id title content e = { e with title := title, content := content } :=
    if_pos rfl
  -- the entry mismatches iff the two texts hash apart
  have hmismatch : contentViolations sha256 (retext e.id title content e) = [] ↔
      hashText title content = hashText e.title e.content := by
    rw [contentViolations_eq_nil, hself]
    refine Iff.trans ?_ (computeContentHash_inj hinj hnew hold)
    rw [hstored]
    exact eq_comm
  rw [Ne, ← hmismatch]
  constructor
  · rintro ⟨v, hv, hid⟩ hnil
    obtain ⟨e', he', hv'⟩ := (mem_violations_replaceText hclean).mp hv
    have hsame : e'.id = e.id := by
      rw [← hid, entryId_of_mem_contentViolations hv', retext_id]
    obtain rfl : e' = e := List.inj_on_of_nodup_map hids he' he hsame
    rw [hnil] at hv'
    cases hv'
  · intro hne
    obtain ⟨v, hv⟩ := List.exists_mem_of_ne_nil _ hne
    refine ⟨v, (mem_violations_replaceText hclean).mpr ⟨e, he, hv⟩, ?_⟩
    rw [entryId_of_mem_contentViolations hv, retext_id]

/-- SHA-256 at three texts; zeros elsewhere. -/
def sampleDigest : Digest := fun bytes =>
  if bytes.data = "a: b".toUTF8.data then
    #v[0x75, 0xcd, 0x18, 0x99, 0x33, 0x7f, 0xfb, 0xc9, 0x34, 0x13, 0x98, 0xf7, 0x45, 0x6f, 0x10, 0x27,
      0xe2, 0xfc, 0x4b, 0x26, 0x58, 0xf9, 0xf0, 0x55, 0x5a, 0x7a, 0x96, 0x5c, 0xb3, 0x09, 0xc6, 0xdd]
  else if bytes.data = "a: c".toUTF8.data then
    #v[0xa8, 0xca, 0xbb, 0x53, 0x28, 0x16, 0x87, 0xe0, 0x07, 0xaa, 0x69, 0x88, 0x2e, 0x04, 0x5c, 0x59,
      0x53, 0x55, 0x70, 0x26, 0xc5, 0x29, 0x22, 0xc7, 0x18, 0xb6, 0xa1, 0xd3, 0x26, 0xe7, 0xb7, 0xb7]
  else if bytes.data = "a: b: c".toUTF8.data then
    #v[0x8d, 0xa4, 0x3e, 0x83, 0x8f, 0x63, 0xfb, 0xd8, 0x8d, 0xfd, 0x05, 0xf6, 0xf1, 0x5e, 0xe2, 0x47,
      0x9f, 0x46, 0xb2, 0xce, 0x19, 0x1e, 0xc1, 0xab, 0xbb, 0x87, 0xd2, 0x52, 0xfc, 0x19, 0x6a, 0xb2]
  else Vector.replicate 32 0

/-- A freshly inserted entry with this text. -/
def sampleEntry (title content : String) : EntryRecord where
  id := 1
  title
  content
  topic := "t"
  category := "c"
  tags := []
  source := "s"
  status := .active
  confidence := 0
  createdAt := 0
  updatedAt := 0
  lastAccessedAt := 0
  accessCount := 0
  supersedes := none
  supersededBy := none
  correctionCount := 0
  embeddingDim := 0
  createdBy := ""
  modifiedBy := ""
  contentHash := computeContentHash sampleDigest title content
  previousHash := ""
  version := 1
  featureCycle := ""
  trustSource := ""
  helpfulCount := 0
  unhelpfulCount := 0
  preQuarantineStatus := none

theorem tamper_reported_iff_content :
    (∃ v ∈ (verifyEntries sampleDigest
        (replaceText 1 "a" "c" [sampleEntry "a" "b"])).violations, v.entryId = 1) ↔
      hashText "a" "c" ≠ hashText "a" "b" := by
  refine tamper_reported_iff (e := sampleEntry "a" "b") (by decide) (by decide +kernel)
    List.mem_cons_self ?_
  rintro b hb b' hb' heq
  have htexts : ∀ x ∈ insert (hashInput "a" "c") (hashedInputs [sampleEntry "a" "b"]),
      x = "a: c".toUTF8 ∨ x = "a: b".toUTF8 := by
    rintro x (rfl | ⟨e, he, rfl⟩)
    · exact Or.inl rfl
    · obtain rfl := List.mem_singleton.mp he
      exact Or.inr rfl
  have hdiff : sampleDigest "a: c".toUTF8 ≠ sampleDigest "a: b".toUTF8 := by decide +kernel
  obtain rfl | rfl := htexts b hb
  · obtain rfl | rfl := htexts b' hb'
    · rfl
    · exact absurd heq hdiff
  · obtain rfl | rfl := htexts b' hb'
    · exact absurd heq.symm hdiff
    · rfl

/-- Title "a" with content "b: c" hashes like title "a: b" with content "c", and nothing is reported. -/
theorem separator_moved_unseen :
    ¬ ∀ (entries : List EntryRecord) (e : EntryRecord) (title content : String),
      (entries.map EntryRecord.id).Nodup → (verifyEntries sampleDigest entries).isClean = true →
      (∀ x ∈ entries, x.contentHash ≠ "") → e ∈ entries →
      Set.InjOn sampleDigest (insert (hashInput title content) (hashedInputs entries)) →
      (title, content) ≠ (e.title, e.content) →
      ∃ v ∈ (verifyEntries sampleDigest (replaceText e.id title content entries)).violations,
        v.entryId = e.id := by
  intro hclaim
  have htext : hashInput "a: b" "c" = hashInput "a" "b: c" := by
    unfold hashInput
    exact congrArg String.toUTF8 (hashText_split (a := "a") (b := "b") (c := "c")
      (by decide) (by decide)).symm
  have hinj : Set.InjOn sampleDigest
      (insert (hashInput "a: b" "c") (hashedInputs [sampleEntry "a" "b: c"])) := by
    rintro x hx y hy -
    have hall : ∀ z ∈ insert (hashInput "a: b" "c") (hashedInputs [sampleEntry "a" "b: c"]),
        z = hashInput "a" "b: c" := by
      rintro z (rfl | ⟨e, he, rfl⟩)
      · exact htext
      · rw [List.mem_singleton.mp he]
        rfl
    rw [hall x hx, hall y hy]
  obtain ⟨v, hv, -⟩ := hclaim [sampleEntry "a" "b: c"] (sampleEntry "a" "b: c") "a: b" "c"
    (by decide) (by decide +kernel) (by decide +kernel) List.mem_cons_self hinj (by decide)
  have hnone : (verifyEntries sampleDigest
      (replaceText 1 "a: b" "c" [sampleEntry "a" "b: c"])).violations = [] := by decide +kernel
  have hnil : v ∈ ([] : List ChainViolation) := hnone ▸ hv
  cases hnil

end Unimatrix
