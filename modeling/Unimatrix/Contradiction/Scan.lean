import Mathlib.Data.List.Sort
import Unimatrix.Contradiction.Directives
import Unimatrix.Lib.SeenScan
import Unimatrix.Store.Schema

/-!
# The contradiction scan

Model of `scan_contradictions` of `contradiction.rs`.

The embedding and the neighbour search are functions that may fail; a failure skips the entry. The scan skips a pair it
has seen, from whichever side. Since the heuristic is symmetric (**`conflictHeuristic_comm`**), what it reports for a pair
does not depend on the side, and the scan is a `SeenScan`: **`scan_exact`**.

The similarity of a neighbour is cast from `f64` to `f32` (`asF32`), which may be a NaN (`none`).
-/

namespace Unimatrix.Contradiction

/-! ## The code -/

/-- A neighbour: its entry, and how similar it is. -/
structure SearchResult (D : Type) where
  entryId : Nat
  similarity : D

/-- The services of the scan. -/
structure Services (Embedding D F : Type) where
  /-- `embed_entry`. -/
  embedEntry : String → String → Option Embedding
  /-- `VectorStore::search`. -/
  search : Embedding → Nat → Nat → Option (List (SearchResult D))
  /-- `as f32`. -/
  asF32 : D → Option F

/-- `ContradictionConfig`. -/
structure ContradictionConfig (F : Type) where
  similarityThreshold : Option F
  conflictSensitivity : Option F
  neighborsPerEntry : Nat

/-- `ContradictionPair`. -/
structure ContradictionPair (F : Type) where
  entryIdA : Nat
  entryIdB : Nat
  titleA : String
  titleB : String
  similarity : Option F
  conflictScore : F
  explanation : String

def efSearch : Nat := 32

section Code

variable {Embedding D F : Type} [F64 F] (u : Unicode) (fixed2 : F → String) (services : Services Embedding D F)
  (config : ContradictionConfig F) (entries : List EntryRecord)

/-- `a < b`; a NaN is below nothing and above nothing. -/
def lessThan (a b : Option F) : Bool := a.any fun x => b.any fun y => x < y

/-- `entry_map.get`: of two entries with one id the last. -/
def entryMap (id : Nat) : Option EntryRecord := entries.reverse.find? fun e => e.id = id

/-- The key of a pair. -/
def pairKey (a b : Nat) : Nat × Nat := (min a b, max a b)

/-- One neighbour of an entry. -/
def visitNeighbor (entry : EntryRecord) (st : SeenScan.State (Nat × Nat) (ContradictionPair F))
    (neighbor : SearchResult D) : SeenScan.State (Nat × Nat) (ContradictionPair F) :=
  if neighbor.entryId = entry.id then st
  else if lessThan (services.asF32 neighbor.similarity) config.similarityThreshold then st
  else
    let key := pairKey entry.id neighbor.entryId
    if key ∈ st.seen then st
    else
      let seen := key :: st.seen
      match entryMap entries neighbor.entryId with
      | none => { st with seen }
      | some neighborEntry =>
        if neighborEntry.status ≠ .active then { st with seen }
        else
          let (conflictScore, explanation) := conflictHeuristic u fixed2 entry.content.toList
            neighborEntry.content.toList config.conflictSensitivity
          if 0 < conflictScore then
            let (titleA, titleB) := if entry.id = key.1 then (entry.title, neighborEntry.title)
              else (neighborEntry.title, entry.title)
            { seen, found := st.found ++ [{ entryIdA := key.1, entryIdB := key.2, titleA, titleB,
                                            similarity := services.asF32 neighbor.similarity, conflictScore,
                                            explanation }] }
          else { st with seen }

/-- One entry. -/
def visitEntry (st : SeenScan.State (Nat × Nat) (ContradictionPair F)) (entry : EntryRecord) :
    SeenScan.State (Nat × Nat) (ContradictionPair F) :=
  match services.embedEntry entry.title entry.content with
  | none => st
  | some embedding =>
    match services.search embedding config.neighborsPerEntry efSearch with
    | none => st
    | some neighbors => neighbors.foldl (visitNeighbor u fixed2 services config entries entry) st

/-- `scan_contradictions`. -/
def scanContradictions : List (ContradictionPair F) :=
  (entries.foldl (visitEntry u fixed2 services config entries) ⟨[], []⟩).found.insertionSort
    (F64.descending ContradictionPair.conflictScore)

end Code

/-! ## The heuristic is symmetric -/

section Symmetry

variable {F : Type} [F64 F] {u : Unicode}

theorem compareSubjects_comm (a b : Str) : compareSubjects (F := F) a b = compareSubjects b a := by
  simp only [compareSubjects, eq_comm (a := a), Bool.or_comm (contains a b)]

/-- The score of a pair of opposed directives. -/
def Opposed (x : F) (a b : Str × Str) : Prop :=
  isAffirmative a.1 ≠ isAffirmative b.1 → 0 < compareSubjects (F := F) a.2 b.2 → compareSubjects a.2 b.2 ≤ x

theorem opposed_comm {x : F} {a b : Str × Str} : Opposed x a b ↔ Opposed x b a := by
  rw [Opposed, Opposed, compareSubjects_comm, ne_comm]

theorem opposePair_le {a b : Str × Str} {m x : F} : opposePair a m b ≤ x ↔ m ≤ x ∧ Opposed x a b := by
  unfold opposePair Opposed
  split
  · simp_all
  · dsimp only
    split
    · simp_all
    · simp_all

theorem foldl_opposePair_le {a : Str × Str} {l : List (Str × Str)} {m x : F} :
    l.foldl (opposePair a) m ≤ x ↔ m ≤ x ∧ ∀ b ∈ l, Opposed x a b := by
  induction l generalizing m with
  | nil => simp
  | cons b l ih => rw [List.foldl_cons, ih, opposePair_le, List.forall_mem_cons, and_assoc]

/-- **The negation signal is bounded by the opposed pairs.** -/
theorem checkNegationOpposition_le {a b : Str} {x : F} :
    checkNegationOpposition u a b ≤ x ↔
      0 ≤ x ∧ ∀ d ∈ extractDirectives u a, ∀ e ∈ extractDirectives u b, Opposed x d e := by
  unfold checkNegationOpposition
  generalize extractDirectives u a = l
  generalize (0 : F) = m
  induction l generalizing m with
  | nil => simp
  | cons d l ih => rw [List.foldl_cons, ih, foldl_opposePair_le, List.forall_mem_cons, and_assoc]

theorem checkNegationOpposition_comm (a b : Str) :
    checkNegationOpposition (F := F) u a b = checkNegationOpposition u b a := by
  refine eq_of_forall_ge_iff fun x => ?_
  rw [checkNegationOpposition_le, checkNegationOpposition_le]
  refine and_congr_right fun _ => ⟨fun h e he d hd => ?_, fun h d hd e he => ?_⟩
  · exact opposed_comm.mp (h d hd e he)
  · exact opposed_comm.mp (h e he d hd)

theorem checkIncompatibleDirectives_comm (a b : Str) :
    checkIncompatibleDirectives (F := F) u a b = checkIncompatibleDirectives u b a := by
  have hany : ∀ l l' : List Str,
      (l.any fun x => l'.any fun y => x ≠ y && !contains x y && !contains y x) →
        l'.any fun y => l.any fun x => y ≠ x && !contains y x && !contains x y := by
    intro l l' h
    simp only [List.any_eq_true, Bool.and_eq_true] at h ⊢
    obtain ⟨x, hx, y, hy, ⟨hne, hxy⟩, hyx⟩ := h
    exact ⟨y, hy, x, hx, ⟨decide_eq_true (Ne.symm (of_decide_eq_true hne)), hyx⟩, hxy⟩
  unfold checkIncompatibleDirectives
  exact if_congr ⟨hany _ _, hany _ _⟩ rfl rfl

theorem checkOpposingSentiment_comm (a b : Str) :
    checkOpposingSentiment (F := F) u a b = checkOpposingSentiment u b a := by
  unfold checkOpposingSentiment
  dsimp only
  congr 1
  rw [Bool.or_comm, Bool.and_comm (hasMarker negativeMarkers (u.toLowercase a)),
    Bool.and_comm (hasMarker positiveMarkers (u.toLowercase a))]

/-- **The heuristic does not depend on the order of the two contents.** -/
theorem conflictHeuristic_comm (fixed2 : F → String) (a b : Str) (sensitivity : Option F) :
    conflictHeuristic u fixed2 a b sensitivity = conflictHeuristic u fixed2 b a sensitivity := by
  have hsignals : signalsOf (F := F) u a b = signalsOf u b a := by
    rw [signalsOf, checkNegationOpposition_comm, checkIncompatibleDirectives_comm, checkOpposingSentiment_comm,
      ← signalsOf]
  rw [conflictHeuristic, hsignals, ← conflictHeuristic]

end Symmetry

/-! ## The scan -/

/-- What the caller hands over: active entries with distinct ids. -/
structure Snapshot where
  entries : List EntryRecord
  active : ∀ e ∈ entries, e.status = .active
  distinct : (entries.map EntryRecord.id).Nodup

/-- The same entries in any order. -/
structure Snapshot.Shuffle (s : Snapshot) where
  other : Snapshot
  perm : other.entries.Perm s.entries

section Spec

variable {Embedding D F : Type} [F64 F] (u : Unicode) (fixed2 : F → String) (services : Services Embedding D F)
  (config : ContradictionConfig F)

/-- The neighbours that the scan looks at. -/
def neighborsOf (entry : EntryRecord) : List (SearchResult D) :=
  match services.embedEntry entry.title entry.content with
  | none => []
  | some embedding => (services.search embedding config.neighborsPerEntry efSearch).getD []

/-- At or above; a NaN is not compared. -/
def AtLeast (a b : Option F) : Prop := ∀ x ∈ a, ∀ y ∈ b, y ≤ x

/-- `e` lists `f` as a neighbour at or above the threshold. -/
def Lists (e f : EntryRecord) : Prop :=
  ∃ n ∈ neighborsOf services config e, n.entryId = f.id ∧
    AtLeast (services.asF32 n.similarity) config.similarityThreshold

/-- The score of two entries. -/
def scoreOf (e f : EntryRecord) : F :=
  (conflictHeuristic u fixed2 e.content.toList f.content.toList config.conflictSensitivity).1

/-- The pair of ids is a contradiction with that score. -/
def Contradicts (entries : List EntryRecord) (t : Nat × Nat × F) : Prop :=
  ∃ e ∈ entries, ∃ f ∈ entries, e.id = t.1 ∧ f.id = t.2.1 ∧ t.1 < t.2.1 ∧
    (Lists services config e f ∨ Lists services config f e) ∧ scoreOf u fixed2 config e f = t.2.2 ∧ 0 < t.2.2

/-- What of a reported pair depends on the entries only. -/
def ContradictionPair.triple (p : ContradictionPair F) : Nat × Nat × F := (p.entryIdA, p.entryIdB, p.conflictScore)

/-- The ids of a reported pair. -/
def ContradictionPair.ids (p : ContradictionPair F) : Nat × Nat := (p.entryIdA, p.entryIdB)

/-- The triples that a scan reports. -/
def triples (entries : List EntryRecord) : List (Nat × Nat × F) :=
  (scanContradictions u fixed2 services config entries).map ContradictionPair.triple

/-- The scan reports the contradictions of the snapshot, each once, in whatever order the entries come. -/
structure ScanExact (s : Snapshot) : Prop where
  reports : ∀ t, t ∈ triples u fixed2 services config s.entries ↔ Contradicts u fixed2 services config s.entries t
  ordered : ∀ p ∈ scanContradictions u fixed2 services config s.entries, p.entryIdA < p.entryIdB
  once : ((scanContradictions u fixed2 services config s.entries).map ContradictionPair.ids).Nodup
  shuffled : ∀ o : s.Shuffle, ∀ t,
    t ∈ triples u fixed2 services config o.other.entries ↔ t ∈ triples u fixed2 services config s.entries
  symmetric : ∀ (a b : Str) (sensitivity : Option F),
    (conflictHeuristic u fixed2 a b sensitivity).1 = (conflictHeuristic u fixed2 b a sensitivity).1

end Spec

/-! ## The scan is a scan that skips what it has seen -/

section Refinement

variable {Embedding D F : Type} [F64 F] {u : Unicode} {fixed2 : F → String} {services : Services Embedding D F}
  {config : ContradictionConfig F} {entries : List EntryRecord}

variable (u fixed2 services config entries) in
/-- What a visit adds, if its pair is new. -/
def emit (v : EntryRecord × SearchResult D) : Option (ContradictionPair F) :=
  (entryMap entries v.2.entryId).bind fun f =>
    if f.status ≠ .active then none
    else
      let (conflictScore, explanation) := conflictHeuristic u fixed2 v.1.content.toList f.content.toList
        config.conflictSensitivity
      if 0 < conflictScore then
        let key := pairKey v.1.id v.2.entryId
        let (titleA, titleB) := if v.1.id = key.1 then (v.1.title, f.title) else (f.title, v.1.title)
        some { entryIdA := key.1, entryIdB := key.2, titleA, titleB, similarity := services.asF32 v.2.similarity,
               conflictScore, explanation }
      else none

/-- The key of a visit. -/
def visitKey (v : EntryRecord × SearchResult D) : Nat × Nat := pairKey v.1.id v.2.entryId

variable (services config) in
/-- The visits that are not skipped for themselves. -/
def passes (v : EntryRecord × SearchResult D) : Bool :=
  v.2.entryId ≠ v.1.id && !lessThan (services.asF32 v.2.similarity) config.similarityThreshold

variable (services config entries) in
/-- The visits of a scan, in their order. -/
def visits : List (EntryRecord × SearchResult D) :=
  (entries.flatMap fun e => (neighborsOf services config e).map fun n => (e, n)).filter (passes services config)

theorem visitNeighbor_eq (e : EntryRecord) (n : SearchResult D) (st : SeenScan.State (Nat × Nat) (ContradictionPair F)) :
    visitNeighbor u fixed2 services config entries e st n =
      if passes services config (e, n) then
        SeenScan.visit visitKey (emit u fixed2 services config entries) st (e, n) else st := by
  unfold visitNeighbor passes SeenScan.visit visitKey emit
  dsimp only
  by_cases hself : n.entryId = e.id
  · simp [hself]
  · cases hbelow : lessThan (services.asF32 n.similarity) config.similarityThreshold with
    | true => simp [hself]
    | false =>
      simp only [hself, if_false, Bool.false_eq_true, Bool.not_false, Bool.and_true, ne_eq, not_false_eq_true, decide_true, if_true]
      split
      · rfl
      · cases entryMap entries n.entryId with
        | none => simp
        | some f =>
          dsimp only [Option.bind_some]
          split
          · simp
          · split <;> simp

theorem scan_eq : entries.foldl (visitEntry u fixed2 services config entries) ⟨[], []⟩ =
    SeenScan.scan visitKey (emit u fixed2 services config entries) (visits services config entries) := by
  have hentry : ∀ st e, visitEntry u fixed2 services config entries st e =
      (neighborsOf services config e).foldl (visitNeighbor u fixed2 services config entries e) st := by
    intro st e
    unfold visitEntry neighborsOf
    cases services.embedEntry e.title e.content with
    | none => rfl
    | some embedding =>
      dsimp only
      cases services.search embedding config.neighborsPerEntry efSearch <;> rfl
  unfold SeenScan.scan visits
  rw [List.foldl_filter, List.foldl_flatMap]
  congr 1
  funext st e
  rw [hentry, List.foldl_map]
  congr 1
  funext st n
  exact visitNeighbor_eq e n st

/-! ## What the scan reports -/

theorem lessThan_eq_false {a b : Option F} : lessThan a b = false ↔ AtLeast a b := by
  cases a <;> cases b <;> simp [lessThan, AtLeast]

theorem mem_visits {e : EntryRecord} {n : SearchResult D} :
    (e, n) ∈ visits services config entries ↔
      e ∈ entries ∧ n ∈ neighborsOf services config e ∧ n.entryId ≠ e.id ∧
        AtLeast (services.asF32 n.similarity) config.similarityThreshold := by
  simp only [← lessThan_eq_false, visits, passes, List.mem_filter, List.mem_flatMap, List.mem_map, Prod.mk.injEq, Bool.and_eq_true,
    decide_eq_true_eq, Bool.not_eq_true']
  constructor
  · rintro ⟨⟨e', he', n', hn', rfl, rfl⟩, hself, hbelow⟩
    exact ⟨he', hn', hself, hbelow⟩
  · rintro ⟨he, hn, hself, hbelow⟩
    exact ⟨⟨e, he, n, hn, rfl, rfl⟩, hself, hbelow⟩

theorem scoreOf_comm (e f : EntryRecord) : scoreOf u fixed2 config e f = scoreOf u fixed2 config f e := by
  rw [scoreOf, conflictHeuristic_comm, ← scoreOf]

variable {s : Snapshot}

theorem Snapshot.ext_id {e f : EntryRecord} (he : e ∈ s.entries) (hf : f ∈ s.entries) (h : e.id = f.id) : e = f :=
  List.inj_on_of_nodup_map s.distinct he hf h

theorem entryMap_eq_some {id : Nat} {f : EntryRecord} :
    entryMap s.entries id = some f ↔ f ∈ s.entries ∧ f.id = id := by
  constructor
  · intro h
    refine ⟨List.mem_reverse.mp (List.mem_of_find?_eq_some h), by simpa using List.find?_some h⟩
  · rintro ⟨hf, rfl⟩
    cases hfind : entryMap s.entries f.id with
    | none =>
      have hnone := List.find?_eq_none.mp hfind f (List.mem_reverse.mpr hf)
      simp at hnone
    | some g =>
      have hg := List.mem_reverse.mp (List.mem_of_find?_eq_some hfind)
      have hid : g.id = f.id := by simpa using List.find?_some hfind
      rw [s.ext_id hg hf hid]

/-- **What a visit adds**, up to its order: the ids and the score of the two entries. -/
theorem emit_triple {e : EntryRecord} {n : SearchResult D} {t : Nat × Nat × F} :
    (emit u fixed2 services config s.entries (e, n)).map ContradictionPair.triple = some t ↔
      ∃ f ∈ s.entries, f.id = n.entryId ∧ 0 < scoreOf u fixed2 config e f ∧
        t = (min e.id f.id, max e.id f.id, scoreOf u fixed2 config e f) := by
  unfold emit
  constructor
  · intro h
    cases hfind : entryMap s.entries n.entryId with
    | none => simp [hfind] at h
    | some f =>
      obtain ⟨hf, hid⟩ := entryMap_eq_some.mp hfind
      rw [hfind, Option.bind_some, if_neg (by simp [s.active f hf])] at h
      dsimp only at h
      split at h
      · rename_i hpos
        refine ⟨f, hf, hid, hpos, ?_⟩
        rw [Option.map_some, Option.some.injEq] at h
        rw [← h, ContradictionPair.triple, ← hid]
        rfl
      · cases h
  · rintro ⟨f, hf, hid, hpos, rfl⟩
    rw [entryMap_eq_some.mpr ⟨hf, hid⟩, Option.bind_some, if_neg (by simp [s.active f hf])]
    dsimp only
    rw [if_pos (by exact hpos), ← hid]
    rfl

theorem emit_ids {v : EntryRecord × SearchResult D} {p : ContradictionPair F}
    (h : emit u fixed2 services config entries v = some p) : p.ids = visitKey v := by
  obtain ⟨f, -, h⟩ := Option.bind_eq_some_iff.mp h
  split at h
  · cases h
  · dsimp only at h
    split at h
    · rw [← Option.some.inj h]
      rfl
    · cases h

/-- Two entries that list each other add the same. -/
theorem emit_swap {e f : EntryRecord} {n m : SearchResult D} (he : e ∈ s.entries) (hf : f ∈ s.entries)
    (hn : n.entryId = f.id) (hm : m.entryId = e.id) {t : Nat × Nat × F}
    (h : (emit u fixed2 services config s.entries (e, n)).map ContradictionPair.triple = some t) :
    (emit u fixed2 services config s.entries (f, m)).map ContradictionPair.triple = some t := by
  obtain ⟨g, hg, hid, hpos, rfl⟩ := emit_triple.mp h
  obtain rfl := s.ext_id hg hf (hid.trans hn)
  rw [scoreOf_comm] at hpos
  refine emit_triple.mpr ⟨e, he, hm.symm, hpos, ?_⟩
  rw [min_comm, max_comm, scoreOf_comm]

/-- **Visits of one pair add the same**, from whichever side. -/
theorem emit_congr {v v' : EntryRecord × SearchResult D} (hv : v ∈ visits services config s.entries)
    (hv' : v' ∈ visits services config s.entries) (hkey : visitKey v = visitKey v') :
    (emit u fixed2 services config s.entries v).map ContradictionPair.triple =
      (emit u fixed2 services config s.entries v').map ContradictionPair.triple := by
  obtain ⟨e, n⟩ := v
  obtain ⟨e', n'⟩ := v'
  obtain ⟨he, -, hself, -⟩ := mem_visits.mp hv
  obtain ⟨he', -, hself', -⟩ := mem_visits.mp hv'
  obtain ⟨hmin, hmax⟩ := Prod.mk.inj hkey
  dsimp only at hmin hmax
  ext1 t
  have hcases : e.id = e'.id ∧ n.entryId = n'.entryId ∨ n.entryId = e'.id ∧ n'.entryId = e.id := by omega
  rcases hcases with ⟨hee, hnn⟩ | ⟨hne, hen⟩
  · obtain rfl := s.ext_id he he' hee
    rw [emit_triple, emit_triple, hnn]
  · exact ⟨emit_swap he he' hne hen, emit_swap he' he hen hne⟩

theorem found_perm : (scanContradictions u fixed2 services config entries).Perm
    (SeenScan.scan visitKey (emit u fixed2 services config entries) (visits services config entries)).found := by
  rw [← scan_eq]
  exact List.perm_insertionSort _ _

theorem mem_triples {t : Nat × Nat × F} :
    t ∈ triples u fixed2 services config s.entries ↔ Contradicts u fixed2 services config s.entries t := by
  rw [triples, (found_perm.map _).mem_iff, SeenScan.mem_found_view fun v hv v' hv' => emit_congr hv hv']
  constructor
  · rintro ⟨⟨e, n⟩, hv, ht⟩
    obtain ⟨he, hn, hself, hbelow⟩ := mem_visits.mp hv
    obtain ⟨f, hf, hid, hpos, rfl⟩ := emit_triple.mp ht
    have hlists : Lists services config e f := ⟨n, hn, hid.symm, hbelow⟩
    rw [← hid] at hself
    rcases Nat.lt_or_gt_of_ne hself with hlt | hlt
    · rw [Nat.min_eq_right hlt.le, Nat.max_eq_left hlt.le]
      exact ⟨f, hf, e, he, rfl, rfl, hlt, .inr hlists, scoreOf_comm f e, hpos⟩
    · rw [Nat.min_eq_left hlt.le, Nat.max_eq_right hlt.le]
      exact ⟨e, he, f, hf, rfl, rfl, hlt, .inl hlists, rfl, hpos⟩
  · obtain ⟨a, b, score⟩ := t
    rintro ⟨e, he, f, hf, rfl, rfl, hlt, hlists, rfl, hpos⟩
    dsimp only at hlt hpos
    rcases hlists with ⟨n, hn, hid, hbelow⟩ | ⟨n, hn, hid, hbelow⟩
    · refine ⟨(e, n), mem_visits.mpr ⟨he, hn, by omega, hbelow⟩, emit_triple.mpr ⟨f, hf, hid.symm, hpos, ?_⟩⟩
      rw [Nat.min_eq_left hlt.le, Nat.max_eq_right hlt.le]
    · rw [scoreOf_comm] at hpos
      refine ⟨(f, n), mem_visits.mpr ⟨hf, hn, by omega, hbelow⟩, emit_triple.mpr ⟨e, he, hid.symm, hpos, ?_⟩⟩
      rw [Nat.min_eq_right hlt.le, Nat.max_eq_left hlt.le, scoreOf_comm]

theorem Contradicts.perm {l l' : List EntryRecord} (hperm : l.Perm l') {t : Nat × Nat × F}
    (h : Contradicts u fixed2 services config l t) : Contradicts u fixed2 services config l' t := by
  obtain ⟨e, he, f, hf, h⟩ := h
  exact ⟨e, hperm.mem_iff.mp he, f, hperm.mem_iff.mp hf, h⟩

theorem ids_lt {p : ContradictionPair F} (h : p ∈ scanContradictions u fixed2 services config entries) :
    p.entryIdA < p.entryIdB := by
  obtain ⟨⟨e, n⟩, hv, hemit⟩ := SeenScan.exists_of_mem_found (found_perm.mem_iff.mp h)
  obtain ⟨-, -, hself, -⟩ := mem_visits.mp hv
  obtain ⟨ha, hb⟩ := Prod.mk.inj (emit_ids hemit)
  dsimp only at ha hb
  omega

variable (u fixed2 services config s) in
/-- **The scan reports exactly the contradictions**, each once, in whatever order the entries come. -/
theorem scan_exact : ScanExact u fixed2 services config s where
  reports _ := mem_triples
  ordered _ := ids_lt
  once := (found_perm.map _).nodup_iff.mpr (SeenScan.found_nodup (fun _ _ => emit_ids) _)
  shuffled o t := by
    rw [mem_triples, mem_triples]
    exact ⟨fun h => h.perm o.perm, fun h => h.perm o.perm.symm⟩
  symmetric a b sensitivity := by rw [conflictHeuristic_comm]

end Refinement

end Unimatrix.Contradiction
