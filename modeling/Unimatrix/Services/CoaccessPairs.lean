import Unimatrix.Lib.Distinct
import Unimatrix.Lib.HashMap
import Unimatrix.Lib.StableSort

/-!
# Co-access pairs

Model of `build_coaccess_pairs` of `behavioral_signals.rs`.

* The sessions are iterated in the order the hasher picks, any `IterOrder`.
* `seen`, `pairs` and `cap_hit` are a `Distinct.State`; `break 'outer` leaves them as they are for the rest of the loops.

The loops walk over `enumerated`, the pairs of different entries of each session, and keep the first `PAIR_CAP` that are
distinct. `cap_hit` is set with the last of these, whether or not another pair follows.

**`cap_flag_iff`**: so the flag is right exactly if the sessions do not have `PAIR_CAP` pairs, and the rest always is.
-/

namespace Unimatrix.CoaccessPairs

open HashMap

/-! ## The code -/

/-- `PAIR_CAP`. -/
def pairCap : Nat := 200

/-- A pair of entries. -/
abbrev Pair : Type := UInt64 × UInt64

/-- The entries of a session, with their `ts_millis`. -/
abbrev Entries : Type := List (UInt64 × Int64)

/-- `(a.min(b), a.max(b))`. -/
def canonical (a b : UInt64) : Pair := (min a b, max a b)

/-- The body of the inner loop. -/
def visit (w : Distinct.State Pair) (a b : UInt64) : Distinct.State Pair :=
  if a = b then w else w.add pairCap (canonical a b)

/-- The loops over `i` and `j`. -/
def pairLoop (w : Distinct.State Pair) : Entries → Distinct.State Pair
  | [] => w
  | e :: entries => pairLoop (entries.foldl (fun w e' => visit w e.1 e'.1) w) entries

/-- `entries.sort_by_key(|(_, ts)| *ts)`. -/
def sorted (entries : Entries) : Entries := StableSort.sortBy (fun e => e.2.toInt) entries

/-- `build_coaccess_pairs`. -/
def buildCoaccessPairs (o : IterOrder (List Char) Entries) (bySession : HashMap (List Char) Entries) :
    List Pair × Bool :=
  let w := (bySession.iter o).foldl (fun w session => pairLoop w (sorted session.2)) Distinct.State.start
  (w.kept, w.capHit)

/-! ## What it is for -/

/-- The ids of the entries of a session. -/
def ids (entries : Entries) : List UInt64 := entries.map Prod.fst

/-- The pairs of different entries of one session, the smaller one first. -/
def formed (bySession : HashMap (List Char) Entries) : Finset Pair :=
  (bySession.pairs.flatMap fun session => (ids session.2).flatMap fun a =>
    ((ids session.2).filter fun b => a < b).map fun b => (a, b)).toFinset

/-- The pairs are such pairs, distinct, all of them or as many as there may be, and the flag says if one is missing. -/
structure Faithful (bySession : HashMap (List Char) Entries) (result : List Pair × Bool) : Prop where
  nodup : result.1.Nodup
  formed : ∀ p ∈ result.1, p ∈ formed bySession
  all : (CoaccessPairs.formed bySession).card ≤ pairCap → ∀ p ∈ CoaccessPairs.formed bySession, p ∈ result.1
  capped : pairCap < (CoaccessPairs.formed bySession).card → result.1.length = pairCap
  capHit : result.2 = true ↔ ∃ p ∈ CoaccessPairs.formed bySession, p ∉ result.1

theorem mem_formed {bySession : HashMap (List Char) Entries} {p : Pair} :
    p ∈ formed bySession ↔ ∃ session ∈ bySession.pairs, p.1 ∈ ids session.2 ∧ p.2 ∈ ids session.2 ∧ p.1 < p.2 := by
  obtain ⟨a, b⟩ := p
  simp [formed]

/-! ## The pairs that are met -/

/-- The pairs of one entry with those after it. -/
def withLater (a : UInt64) (entries : Entries) : List Pair :=
  ((ids entries).filter fun b => a ≠ b).map (canonical a)

/-- The pairs that the loops over `i` and `j` meet. -/
def sessionPairs : Entries → List Pair
  | [] => []
  | e :: entries => withLater e.1 entries ++ sessionPairs entries

/-- The pairs that all loops meet. -/
def enumerated (o : IterOrder (List Char) Entries) (bySession : HashMap (List Char) Entries) : List Pair :=
  (bySession.iter o).flatMap fun session => sessionPairs (sorted session.2)

theorem foldl_visit (a : UInt64) (entries : Entries) (w : Distinct.State Pair) :
    entries.foldl (fun w e => visit w a e.1) w = (withLater a entries).foldl (Distinct.State.add pairCap) w := by
  unfold withLater ids
  rw [List.foldl_map, List.foldl_filter, List.foldl_map]
  congr 1
  funext w e
  unfold visit
  by_cases h : a = e.1
  · rw [if_pos h, if_neg (by simpa using h)]
  · rw [if_neg h, if_pos (by simpa using h)]

theorem pairLoop_eq (entries : Entries) (w : Distinct.State Pair) :
    pairLoop w entries = (sessionPairs entries).foldl (Distinct.State.add pairCap) w := by
  induction entries generalizing w with
  | nil => rfl
  | cons e entries ih => rw [pairLoop, ih, foldl_visit, sessionPairs, List.foldl_append]

/-- **The loops collect from the pairs that they meet.** -/
theorem buildCoaccessPairs_eq (o : IterOrder (List Char) Entries) (bySession : HashMap (List Char) Entries) :
    buildCoaccessPairs o bySession = ((Distinct.collect pairCap (enumerated o bySession)).kept,
      (Distinct.collect pairCap (enumerated o bySession)).capHit) := by
  unfold buildCoaccessPairs Distinct.collect enumerated
  rw [List.foldl_flatMap]
  simp only [pairLoop_eq]

/-! ## They are the pairs of the sessions -/

theorem canonical_of_lt {a b : UInt64} (h : a < b) : canonical a b = (a, b) ∧ canonical b a = (a, b) := by
  have hle : a ≤ b := UInt64.le_of_lt h
  have hnot : ¬ b ≤ a := UInt64.not_le.mpr h
  refine ⟨Prod.ext (if_pos hle) (if_pos hle), Prod.ext (if_neg hnot) (if_neg hnot)⟩

/-- A pair with `a` is met exactly if the other entry comes later. -/
theorem mem_withLater {a : UInt64} {entries : Entries} {p : Pair} :
    p ∈ withLater a entries ↔
      p.1 < p.2 ∧ (p.1 = a ∧ p.2 ∈ ids entries ∨ p.2 = a ∧ p.1 ∈ ids entries) := by
  unfold withLater
  rw [List.mem_map]
  constructor
  · rintro ⟨b, hb, rfl⟩
    obtain ⟨hb, hne⟩ := List.mem_filter.mp hb
    rcases UInt64.lt_or_lt_of_ne (of_decide_eq_true hne) with hlt | hlt
    · rw [(canonical_of_lt hlt).1]
      exact ⟨hlt, .inl ⟨rfl, hb⟩⟩
    · rw [(canonical_of_lt hlt).2]
      exact ⟨hlt, .inr ⟨rfl, hb⟩⟩
  · rintro ⟨hlt, ⟨rfl, hb⟩ | ⟨rfl, hb⟩⟩
    · exact ⟨p.2, List.mem_filter.mpr ⟨hb, decide_eq_true (UInt64.ne_of_lt hlt)⟩, (canonical_of_lt hlt).1⟩
    · exact ⟨p.1, List.mem_filter.mpr ⟨hb, decide_eq_true (UInt64.ne_of_lt hlt).symm⟩, (canonical_of_lt hlt).2⟩

/-- **The loops meet the pairs of different entries.** -/
theorem mem_sessionPairs {entries : Entries} {p : Pair} :
    p ∈ sessionPairs entries ↔ p.1 ∈ ids entries ∧ p.2 ∈ ids entries ∧ p.1 < p.2 := by
  induction entries with
  | nil => exact ⟨fun h => absurd h List.not_mem_nil, fun h => absurd h.1 List.not_mem_nil⟩
  | cons e entries ih =>
    have hids : ids (e :: entries) = e.1 :: ids entries := rfl
    rw [sessionPairs, List.mem_append, mem_withLater, ih, hids, List.mem_cons, List.mem_cons]
    constructor
    · rintro (⟨hlt, ⟨h₁, h₂⟩ | ⟨h₂, h₁⟩⟩ | ⟨h₁, h₂, hlt⟩)
      · exact ⟨.inl h₁, .inr h₂, hlt⟩
      · exact ⟨.inr h₁, .inl h₂, hlt⟩
      · exact ⟨.inr h₁, .inr h₂, hlt⟩
    · rintro ⟨h₁ | h₁, h₂ | h₂, hlt⟩
      · exact absurd (h₁.trans h₂.symm) (UInt64.ne_of_lt hlt)
      · exact .inl ⟨hlt, .inl ⟨h₁, h₂⟩⟩
      · exact .inl ⟨hlt, .inr ⟨h₂, h₁⟩⟩
      · exact .inr ⟨h₁, h₂, hlt⟩

theorem mem_ids_sorted {entries : Entries} {a : UInt64} : a ∈ ids (sorted entries) ↔ a ∈ ids entries :=
  ((StableSort.sortBy_perm _ entries).map Prod.fst).mem_iff

theorem toFinset_enumerated (o : IterOrder (List Char) Entries) (bySession : HashMap (List Char) Entries) :
    (enumerated o bySession).toFinset = formed bySession := by
  ext p
  rw [List.mem_toFinset, enumerated, List.mem_flatMap, mem_formed]
  refine exists_congr fun session => ?_
  rw [(bySession.iter_perm o).mem_iff, mem_sessionPairs, mem_ids_sorted, mem_ids_sorted]

/-! ## The result -/

/-- What the loops return: the flag is set exactly if there are `PAIR_CAP` pairs, and one is missing if there are more. -/
theorem result_collected (o : IterOrder (List Char) Entries) (bySession : HashMap (List Char) Entries) :
    Distinct.Collected pairCap (enumerated o bySession) (Distinct.collect pairCap (enumerated o bySession)) :=
  Distinct.collected (by decide) _

theorem capHit_iff (o : IterOrder (List Char) Entries) (bySession : HashMap (List Char) Entries) :
    (buildCoaccessPairs o bySession).2 = true ↔ pairCap ≤ (formed bySession).card := by
  rw [buildCoaccessPairs_eq, ← toFinset_enumerated o]
  exact (result_collected o bySession).capHit_iff

theorem exists_missing_iff (o : IterOrder (List Char) Entries) (bySession : HashMap (List Char) Entries) :
    (∃ p ∈ formed bySession, p ∉ (buildCoaccessPairs o bySession).1) ↔ pairCap < (formed bySession).card := by
  rw [buildCoaccessPairs_eq, ← toFinset_enumerated o, ← (result_collected o bySession).exists_missing_iff]
  simp only [List.mem_toFinset]

/-- **The pairs are what they should be, and the flag is right exactly if there are not `PAIR_CAP` of them.** -/
theorem cap_flag_iff (o : IterOrder (List Char) Entries) (bySession : HashMap (List Char) Entries) :
    Faithful bySession (buildCoaccessPairs o bySession) ↔ (formed bySession).card ≠ pairCap := by
  have hcollected := result_collected o bySession
  have hflag := capHit_iff o bySession
  have hmissing := exists_missing_iff o bySession
  constructor
  · intro h heq
    have := hmissing.mp (h.capHit.mp (hflag.mpr heq.ge))
    omega
  · intro hne
    have heq := buildCoaccessPairs_eq o bySession
    refine ⟨?_, fun p hp => ?_, fun hle p hp => ?_, fun hlt => ?_, ?_⟩
    · rw [heq]
      exact hcollected.nodup
    · rw [heq] at hp
      rw [← toFinset_enumerated o, List.mem_toFinset]
      exact hcollected.subset p hp
    · by_contra hnot
      exact absurd (hmissing.mp ⟨p, hp, hnot⟩) (not_lt.mpr hle)
    · rw [heq] at hflag ⊢
      exact hcollected.full (hflag.mpr hlt.le)
    · rw [hflag, hmissing]
      omega

/-- Twenty entries in one session and five in another: their 200 pairs are all returned, and the flag is set. -/
theorem exactly_capped : ¬ ∀ (o : IterOrder (List Char) Entries) (bySession : HashMap (List Char) Entries),
    Faithful bySession (buildCoaccessPairs o bySession) := by
  let twenty : Entries := (List.range 20).map fun i => (UInt64.ofNat (i + 101), Int64.ofNat i)
  let five : Entries := (List.range 5).map fun i => (UInt64.ofNat (i + 1), Int64.ofNat i)
  let bySession : HashMap (List Char) Entries := HashMap.collect [(['a'], twenty), (['b'], five)]
  intro h
  let pairs : List Pair := bySession.pairs.flatMap fun session => (ids session.2).flatMap fun a =>
    ((ids session.2).filter fun b => a < b).map fun b => (a, b)
  -- they ascend, so no two of them are compared but neighbours
  have hchain : (pairs.map fun p => p.1.toNat * 1000 + p.2.toNat).IsChain (· < ·) := by decide +kernel
  have hnodup : pairs.Nodup := List.Nodup.of_map _ ((List.isChain_iff_pairwise.mp hchain).imp ne_of_lt)
  have hlength : pairs.length = pairCap := by decide +kernel
  have hcard : (formed bySession).card = pairCap := (List.toFinset_card_of_nodup hnodup).trans hlength
  have hmissing := (h .stored bySession).capHit.mp ((capHit_iff .stored bySession).mpr hcard.ge)
  rw [exists_missing_iff, hcard] at hmissing
  exact lt_irrefl pairCap hmissing

end Unimatrix.CoaccessPairs
