import Mathlib.Algebra.BigOperators.Group.List.Basic
import Mathlib.Algebra.GroupWithZero.Nat
import Mathlib.Data.List.Dedup
import Mathlib.Data.List.Perm.Subperm
import Mathlib.Logic.Function.Basic

/-!
# The accumulator of entry analyses

Model of `PendingEntriesAnalysis` (`server.rs`) and of what `run_confidence_consumer` and `run_retrospective_consumer`
(`listener.rs`) do to it under its lock.

* A `HashMap` is a list with no key twice, and how it is iterated is any order of the list. A bucket cannot be built
  with more than the 1000 entries of its cap. A counter does not get to 2^32.
* What leaves a bucket is recorded: what a review takes, what is too old, and what the cap or a key that is too long
  throws out.

A measure is one of the three counters. Nothing is lost of it: **`upsert_spec`** and **`bump_spec`** say what one mention
of an entry adds, `foldl_helpful` and `foldl_flagged` what a pass over the mentions adds up to.
-/

namespace Unimatrix.PendingAnalysis

/-! ## Buckets -/

/-- `EntryAnalysis`. -/
structure EntryAnalysis where
  entryId : Nat
  title : String
  category : String
  reworkFlagCount : Nat
  injectionCount : Nat
  successSessionCount : Nat
  reworkSessionCount : Nat
  deriving DecidableEq

/-- The most entries that a bucket has. -/
def cap : Nat := 1000

/-- `FeatureBucket`. -/
structure FeatureBucket where
  entries : List EntryAnalysis
  lastUpdated : Nat
  nodup : (entries.map EntryAnalysis.entryId).Nodup
  length_le : entries.length ≤ cap

/-- How a map is iterated. -/
structure Order where
  of : List EntryAnalysis → List EntryAnalysis
  perm : ∀ entries, (of entries).Perm entries

namespace FeatureBucket

/-- `FeatureBucket::new`. -/
def new (now : Nat) : FeatureBucket := ⟨[], now, List.nodup_nil, Nat.zero_le _⟩

/-- `contains_key`. -/
def contains (b : FeatureBucket) (entryId : Nat) : Bool := b.entries.any fun a => decide (a.entryId = entryId)

theorem contains_iff {b : FeatureBucket} {entryId : Nat} :
    b.contains entryId = true ↔ ∃ a ∈ b.entries, a.entryId = entryId := by
  simp [contains]

/-- `get_mut`, and what is done there: `f` leaves the id as it is. -/
def modify (b : FeatureBucket) (entryId : Nat) (f : EntryAnalysis → EntryAnalysis)
    (hf : ∀ a, (f a).entryId = a.entryId) : FeatureBucket where
  entries := b.entries.map fun a => if a.entryId = entryId then f a else a
  lastUpdated := b.lastUpdated
  nodup := by
    have hids : (b.entries.map fun a => if a.entryId = entryId then f a else a).map EntryAnalysis.entryId =
        b.entries.map EntryAnalysis.entryId := by
      rw [List.map_map]
      refine List.map_congr_left fun a _ => ?_
      simp only [Function.comp_apply]
      split_ifs
      · exact hf a
      · rfl
    rw [hids]
    exact b.nodup
  length_le := (List.length_map _).trans_le b.length_le

/-- `remove`. -/
def remove (b : FeatureBucket) (entryId : Nat) : FeatureBucket where
  entries := b.entries.filter fun a => decide (a.entryId ≠ entryId)
  lastUpdated := b.lastUpdated
  nodup := b.nodup.sublist (List.filter_sublist.map _)
  length_le := Nat.le_trans (List.length_filter_le _ _) b.length_le

theorem mem_remove {b : FeatureBucket} {entryId : Nat} {a : EntryAnalysis} :
    a ∈ (b.remove entryId).entries ↔ a ∈ b.entries ∧ a.entryId ≠ entryId := by
  simp [remove]

theorem remove_length_lt {b : FeatureBucket} {a : EntryAnalysis} (h : a ∈ b.entries) :
    (b.remove a.entryId).entries.length < b.entries.length :=
  List.length_filter_lt_length_iff_exists.mpr ⟨a, h, by simp⟩

/-- `insert`, where there is room. -/
def insert (b : FeatureBucket) (a : EntryAnalysis) (now : Nat) (hroom : (b.remove a.entryId).entries.length < cap) :
    FeatureBucket where
  entries := a :: (b.remove a.entryId).entries
  lastUpdated := now
  nodup := by
    refine List.nodup_cons.mpr ⟨fun hmem => ?_, (b.remove a.entryId).nodup⟩
    obtain ⟨other, hother, hid⟩ := List.mem_map.mp hmem
    exact (mem_remove.mp hother).2 hid
  length_le := hroom

end FeatureBucket

/-- `min_by_key(|(_, v)| v.rework_flag_count)`. -/
def minByFlags : List EntryAnalysis → Option EntryAnalysis
  | [] => none
  | a :: as => some (as.foldl (fun m b => if b.reworkFlagCount < m.reworkFlagCount then b else m) a)

theorem mem_of_minByFlags {entries : List EntryAnalysis} {a : EntryAnalysis} (h : minByFlags entries = some a) :
    a ∈ entries := by
  cases entries with
  | nil => cases h
  | cons b bs =>
    cases h
    induction bs generalizing b with
    | nil => exact List.mem_cons_self
    | cons c cs ih =>
      rw [List.foldl_cons]
      rcases List.mem_cons.mp (ih (if c.reworkFlagCount < b.reworkFlagCount then c else b)) with heq | hmem
      · rw [heq]
        split_ifs
        · exact List.mem_cons_of_mem _ List.mem_cons_self
        · exact List.mem_cons_self
      · exact List.mem_cons_of_mem _ (List.mem_cons_of_mem _ hmem)

/-- The eviction of `upsert`: the bucket, and what is thrown out of it. -/
def makeRoom (order : Order) (b : FeatureBucket) (entryId : Nat) : FeatureBucket × List EntryAnalysis :=
  if cap ≤ b.entries.length ∧ b.contains entryId = false then
    match minByFlags (order.of b.entries) with
    | some v => (b.remove v.entryId, b.entries.filter fun a => decide (a.entryId = v.entryId))
    | none => (b, [])
  else (b, [])

/-- There is room for the entry then. -/
theorem makeRoom_lt (order : Order) (b : FeatureBucket) (entryId : Nat) :
    ((makeRoom order b entryId).1.remove entryId).entries.length < cap := by
  have hle (b : FeatureBucket) : (b.remove entryId).entries.length ≤ b.entries.length := List.length_filter_le _ _
  unfold makeRoom
  split_ifs with hfull
  · cases hmin : minByFlags (order.of b.entries) with
    | none =>
      -- A full bucket is not empty.
      cases hof : order.of b.entries with
      | nil =>
        have hlength := (order.perm b.entries).length_eq
        rw [hof] at hlength
        have hcap := hfull.1
        simp [cap] at hcap hlength
        omega
      | cons a as =>
        rw [hof] at hmin
        cases hmin
    | some v =>
      have hmem : v ∈ b.entries := (order.perm b.entries).mem_iff.mp (mem_of_minByFlags hmin)
      exact Nat.lt_of_le_of_lt (hle _) (Nat.lt_of_lt_of_le (FeatureBucket.remove_length_lt hmem) b.length_le)
  · rw [not_and_or] at hfull
    rcases hfull with hroom | hcontains
    · exact Nat.lt_of_le_of_lt (hle b) (Nat.lt_of_not_le hroom)
    · obtain ⟨a, ha, hid⟩ := FeatureBucket.contains_iff.mp (by simpa using hcontains)
      have hlt := FeatureBucket.remove_length_lt ha
      rw [hid] at hlt
      exact Nat.lt_of_lt_of_le hlt b.length_le

/-! ## The accumulator -/

/-- `PendingEntriesAnalysis`, and what has left each of its buckets. -/
structure Accumulator where
  buckets : String → Option FeatureBucket
  gone : String → List EntryAnalysis

namespace Accumulator

/-- `PendingEntriesAnalysis::new`. -/
def new : Accumulator := ⟨fun _ => none, fun _ => []⟩

/-- The entries of a bucket. -/
def entriesOf (acc : Accumulator) (featureCycle : String) : List EntryAnalysis :=
  ((acc.buckets featureCycle).map FeatureBucket.entries).getD []

/-- The accumulator with other buckets for a key, and something gone from there. -/
def replace (acc : Accumulator) (featureCycle : String) (b : Option FeatureBucket) (out : List EntryAnalysis) :
    Accumulator where
  buckets := Function.update acc.buckets featureCycle b
  gone := Function.update acc.gone featureCycle (acc.gone featureCycle ++ out)

/-- `upsert`. -/
def upsert (acc : Accumulator) (order : Order) (now : Nat) (featureCycle : String) (analysis : EntryAnalysis) :
    Accumulator :=
  if 256 < featureCycle.utf8ByteSize then acc.replace featureCycle (acc.buckets featureCycle) [analysis]
  else
    let bucket := (acc.buckets featureCycle).getD (FeatureBucket.new now)
    let roomy := makeRoom order bucket analysis.entryId
    acc.replace featureCycle (some (roomy.1.insert analysis now (makeRoom_lt order bucket analysis.entryId)))
      (roomy.2 ++ roomy.1.entries.filter fun a => decide (a.entryId = analysis.entryId))

/-- `in_bucket`. -/
def contains (acc : Accumulator) (featureCycle : String) (entryId : Nat) : Bool :=
  (acc.entriesOf featureCycle).any fun a => decide (a.entryId = entryId)

/-- What is done to an entry that is there. -/
def bump (acc : Accumulator) (featureCycle : String) (entryId : Nat) (f : EntryAnalysis → EntryAnalysis)
    (hf : ∀ a, (f a).entryId = a.entryId) : Accumulator :=
  acc.replace featureCycle ((acc.buckets featureCycle).map fun b => b.modify entryId f hf) []

/-- `drain_for`. -/
def drainFor (acc : Accumulator) (featureCycle : String) : Accumulator × List EntryAnalysis :=
  (acc.replace featureCycle none (acc.entriesOf featureCycle), acc.entriesOf featureCycle)

/-- `evict_stale`. -/
def evictStale (acc : Accumulator) (now ttl : Nat) : Accumulator where
  buckets featureCycle :=
    match acc.buckets featureCycle with
    | some b => if ttl < now - b.lastUpdated then none else some b
    | none => none
  gone featureCycle := acc.gone featureCycle ++
    match acc.buckets featureCycle with
    | some b => if ttl < now - b.lastUpdated then b.entries else []
    | none => []

end Accumulator

/-! ## What the counters add up to -/

/-- A counter. -/
inductive Measure where
  | successSessions
  | reworkSessions
  | reworkFlags
  deriving DecidableEq

/-- What a counter says. -/
def EntryAnalysis.value (a : EntryAnalysis) : Measure → Nat
  | .successSessions => a.successSessionCount
  | .reworkSessions => a.reworkSessionCount
  | .reworkFlags => a.reworkFlagCount

/-- What a counter says of an entry, over a list. -/
def sumOf (k : Measure) (entryId : Nat) (entries : List EntryAnalysis) : Nat :=
  ((entries.filter fun a => decide (a.entryId = entryId)).map fun a => a.value k).sum

section Sums

variable {k : Measure} {entryId : Nat}

theorem sumOf_nil : sumOf k entryId [] = 0 := rfl

theorem sumOf_cons (a : EntryAnalysis) (entries : List EntryAnalysis) :
    sumOf k entryId (a :: entries) = (if a.entryId = entryId then a.value k else 0) + sumOf k entryId entries := by
  unfold sumOf
  by_cases h : a.entryId = entryId
  · simp [h]
  · simp [h]

theorem sumOf_append (xs ys : List EntryAnalysis) :
    sumOf k entryId (xs ++ ys) = sumOf k entryId xs + sumOf k entryId ys := by
  unfold sumOf
  rw [List.filter_append, List.map_append, List.sum_append]

/-- A list falls into two parts. -/
theorem sumOf_filter_add (p : EntryAnalysis → Bool) (entries : List EntryAnalysis) (entryId : Nat) :
    sumOf k entryId (entries.filter p) + sumOf k entryId (entries.filter fun a => !p a) = sumOf k entryId entries := by
  induction entries with
  | nil => rfl
  | cons a entries ih =>
    rw [sumOf_cons]
    cases h : p a
    · rw [List.filter_cons_of_neg (by simp [h]), List.filter_cons_of_pos (by simp [h]), sumOf_cons]
      omega
    · rw [List.filter_cons_of_pos h, List.filter_cons_of_neg (by simp [h]), sumOf_cons]
      omega

theorem sumOf_remove (b : FeatureBucket) (id entryId : Nat) :
    sumOf k entryId (b.remove id).entries + sumOf k entryId (b.entries.filter fun a => decide (a.entryId = id)) =
      sumOf k entryId b.entries := by
  have h := sumOf_filter_add (fun a => decide (a.entryId = id)) b.entries entryId (k := k)
  simp only [← decide_not] at h
  rw [Nat.add_comm]
  exact h

theorem sumOf_makeRoom (order : Order) (b : FeatureBucket) (id : Nat) :
    sumOf k entryId (makeRoom order b id).1.entries + sumOf k entryId (makeRoom order b id).2 =
      sumOf k entryId b.entries := by
  unfold makeRoom
  split_ifs
  · cases minByFlags (order.of b.entries) with
    | none => rfl
    | some v => exact sumOf_remove b v.entryId entryId
  · rfl

/-- What is put in a bucket, and what goes for it. -/
theorem sumOf_put (order : Order) (now : Nat) (b : FeatureBucket) (a : EntryAnalysis) :
    sumOf k entryId ((makeRoom order b a.entryId).1.insert a now (makeRoom_lt order b a.entryId)).entries +
        sumOf k entryId ((makeRoom order b a.entryId).2 ++
          (makeRoom order b a.entryId).1.entries.filter fun other => decide (other.entryId = a.entryId)) =
      sumOf k entryId b.entries + if entryId = a.entryId then a.value k else 0 := by
  have hroom : sumOf k entryId (makeRoom order b a.entryId).1.entries +
      sumOf k entryId (makeRoom order b a.entryId).2 = sumOf k entryId b.entries := sumOf_makeRoom order b a.entryId
  have hremove := sumOf_remove (k := k) (makeRoom order b a.entryId).1 a.entryId
  unfold FeatureBucket.insert
  dsimp only
  rw [sumOf_cons, sumOf_append]
  by_cases he : entryId = a.entryId
  · subst he
    rw [if_pos rfl]
    have := hremove a.entryId
    omega
  · rw [if_neg he, if_neg (Ne.symm he)]
    have := hremove entryId
    omega

/-- A counter of an entry that is there, and there once. -/
theorem sumOf_modify {b : FeatureBucket} {id c : Nat} {f : EntryAnalysis → EntryAnalysis}
    {hf : ∀ a, (f a).entryId = a.entryId} (hvalue : ∀ a, (f a).value k = a.value k + c) (h : b.contains id = true) :
    sumOf k entryId (b.modify id f hf).entries = sumOf k entryId b.entries + if entryId = id then c else 0 := by
  obtain ⟨a, ha, hid⟩ := FeatureBucket.contains_iff.mp h
  have hnodup := b.nodup
  unfold FeatureBucket.modify
  dsimp only
  generalize b.entries = entries at ha hnodup
  induction entries with
  | nil => cases ha
  | cons head tail ih =>
    obtain ⟨hfresh, htail⟩ := List.nodup_cons.mp hnodup
    rw [List.map_cons, sumOf_cons, sumOf_cons]
    by_cases hhead : head.entryId = id
    · -- The others are other entries.
      have hsame : (tail.map fun a => if a.entryId = id then f a else a) = tail := by
        refine (List.map_congr_left fun other hother => ?_).trans (List.map_id tail)
        have hne : other.entryId ≠ id := fun heq => hfresh (List.mem_map.mpr ⟨other, hother, heq.trans hhead.symm⟩)
        rw [if_neg hne]
        rfl
      rw [if_pos hhead, hsame, hf, hvalue, hhead]
      by_cases heq : entryId = id
      · rw [if_pos heq.symm, if_pos heq.symm, if_pos heq]
        omega
      · rw [if_neg (Ne.symm heq), if_neg (Ne.symm heq), if_neg heq]
        omega
    · have hmem : a ∈ tail := by
        rcases List.mem_cons.mp ha with rfl | hmem
        · exact absurd hid hhead
        · exact hmem
      rw [if_neg hhead, ih hmem htail]
      omega

end Sums

/-- What a counter says of an entry, in its bucket and in what has left it. -/
def Accumulator.total (acc : Accumulator) (k : Measure) (featureCycle : String) (entryId : Nat) : Nat :=
  sumOf k entryId (acc.entriesOf featureCycle) + sumOf k entryId (acc.gone featureCycle)

/-- What is added to a counter of the entries of a bucket, and of no others. -/
def Adds (k : Measure) (featureCycle : String) (amount : Nat → Nat) (acc acc' : Accumulator) : Prop :=
  ∀ f e, acc'.total k f e = acc.total k f e + if f = featureCycle then amount e else 0

section Adds

variable {k : Measure} {featureCycle : String} {acc acc' acc'' : Accumulator}

theorem Adds.refl (acc : Accumulator) : Adds k featureCycle (fun _ => 0) acc acc := fun f e => by simp

theorem Adds.trans {m n : Nat → Nat} (h : Adds k featureCycle m acc acc') (h' : Adds k featureCycle n acc' acc'') :
    Adds k featureCycle (fun e => m e + n e) acc acc'' := by
  intro f e
  rw [h' f e, h f e]
  by_cases hf : f = featureCycle
  · simp only [if_pos hf, Nat.add_assoc]
  · simp only [if_neg hf, Nat.add_zero]

theorem Adds.congr {m n : Nat → Nat} (h : Adds k featureCycle m acc acc') (hmn : ∀ e, m e = n e) :
    Adds k featureCycle n acc acc' := by
  intro f e
  rw [h f e, hmn e]

/-- What is in the new bucket and what goes is what was in the old one, and something more. -/
theorem adds_replace {b : Option FeatureBucket} {out : List EntryAnalysis} {amount : Nat → Nat}
    (h : ∀ e, sumOf k e ((b.map FeatureBucket.entries).getD []) + sumOf k e out =
      sumOf k e (acc.entriesOf featureCycle) + amount e) :
    Adds k featureCycle amount acc (acc.replace featureCycle b out) := by
  intro f e
  unfold Accumulator.total Accumulator.entriesOf Accumulator.replace
  by_cases hf : f = featureCycle
  · subst hf
    simp only [Function.update_self, sumOf_append, if_true]
    have he := h e
    unfold Accumulator.entriesOf at he
    omega
  · simp [hf]

/-- **To replace an entry or to put in a new one adds what it says**, whatever is thrown out for it. -/
theorem upsert_spec (order : Order) (now : Nat) (analysis : EntryAnalysis) :
    Adds k featureCycle (fun e => if e = analysis.entryId then analysis.value k else 0) acc
      (acc.upsert order now featureCycle analysis) := by
  unfold Accumulator.upsert
  split_ifs
  · refine adds_replace fun e => ?_
    unfold Accumulator.entriesOf
    rw [sumOf_cons, sumOf_nil, Nat.add_zero]
    by_cases he : e = analysis.entryId
    · rw [if_pos he, if_pos he.symm]
    · rw [if_neg he, if_neg (Ne.symm he)]
  · refine adds_replace fun e => ?_
    have hbucket : acc.entriesOf featureCycle =
        ((acc.buckets featureCycle).getD (FeatureBucket.new now)).entries := by
      unfold Accumulator.entriesOf
      cases acc.buckets featureCycle <;> rfl
    rw [hbucket]
    exact sumOf_put order now _ analysis

/-- **To count on an entry that is there adds what is counted.** -/
theorem bump_spec {entryId c : Nat} {f : EntryAnalysis → EntryAnalysis} {hf : ∀ a, (f a).entryId = a.entryId}
    (hvalue : ∀ a, (f a).value k = a.value k + c) (h : acc.contains featureCycle entryId = true) :
    Adds k featureCycle (fun e => if e = entryId then c else 0) acc (acc.bump featureCycle entryId f hf) := by
  refine adds_replace fun e => ?_
  unfold Accumulator.contains Accumulator.entriesOf at h
  unfold Accumulator.entriesOf
  cases hb : acc.buckets featureCycle with
  | none =>
    rw [hb] at h
    cases h
  | some b =>
    rw [hb] at h
    exact sumOf_modify hvalue h

/-- What a review takes is gone. -/
theorem drainFor_spec : Adds k featureCycle (fun _ => 0) acc (acc.drainFor featureCycle).1 :=
  adds_replace fun e => by simp [sumOf_nil]

/-- What is too old is gone. -/
theorem evictStale_spec (now ttl : Nat) : Adds k featureCycle (fun _ => 0) acc (acc.evictStale now ttl) := by
  intro f e
  rw [ite_self, Nat.add_zero]
  unfold Accumulator.total Accumulator.entriesOf Accumulator.evictStale
  dsimp only
  rw [sumOf_append]
  cases acc.buckets f with
  | none => rfl
  | some b =>
    dsimp only
    split_ifs
    · simp [sumOf_nil, Nat.add_comm]
    · simp [sumOf_nil]

end Adds

/-! ## The passes over the mentions -/

/-- A session mentions an entry. -/
abbrev Mention : Type := String × Nat

/-- What a pass carries: the accumulator, `session_counted` and `needing_fetch`. -/
structure Pass where
  acc : Accumulator
  counted : List Mention
  needing : List Nat

/-- `session_counted.insert`. -/
def noted (counted : List Mention) (m : Mention) : List Mention := if m ∈ counted then counted else m :: counted

/-- `success_session_count += 1`. -/
def addSuccess (a : EntryAnalysis) : EntryAnalysis := { a with successSessionCount := a.successSessionCount + 1 }

/-- `rework_flag_count += 1`, and `rework_session_count += 1` when the session is new. -/
def addRework (isNew : Bool) (a : EntryAnalysis) : EntryAnalysis :=
  { a with
    reworkFlagCount := a.reworkFlagCount + 1
    reworkSessionCount := if isNew then a.reworkSessionCount + 1 else a.reworkSessionCount }

section Steps

variable (featureCycle : String) (fetched : Nat → Option (String × String)) (order : Order) (now : Nat)

/-- A success of an entry that is there. -/
def countSuccess (p : Pass) (m : Mention) : Pass :=
  if m ∈ p.counted then p
  else { p with acc := p.acc.bump featureCycle m.2 addSuccess fun _ => rfl, counted := m :: p.counted }

/-- The first pass of `run_confidence_consumer`. -/
def firstStep (p : Pass) (m : Mention) : Pass :=
  if p.acc.contains featureCycle m.2 then countSuccess featureCycle p m
  else { p with needing := p.needing ++ [m.2] }

/-- The third pass of `run_confidence_consumer`. -/
def thirdStep (p : Pass) (m : Mention) : Pass :=
  match fetched m.2 with
  | none => p
  | some (title, category) =>
    if p.acc.contains featureCycle m.2 then countSuccess featureCycle p m
    else { p with
      acc := p.acc.upsert order now featureCycle ⟨m.2, title, category, 0, 0, if m ∈ p.counted then 0 else 1, 0⟩
      counted := noted p.counted m }

/-- Step 4 of `run_retrospective_consumer`. -/
def flaggedStep (p : Pass) (m : Mention) : Pass :=
  let isNew := decide (m ∉ p.counted)
  if p.acc.contains featureCycle m.2 then
    { p with
      acc := p.acc.bump featureCycle m.2 (addRework isNew) fun _ => rfl
      counted := noted p.counted m }
  else
    let (title, category) := (fetched m.2).getD ("", "")
    { p with
      acc := p.acc.upsert order now featureCycle ⟨m.2, title, category, 1, 0, 0, if isNew then 1 else 0⟩
      counted := noted p.counted m }

end Steps

/-- How many sessions were counted for an entry. -/
def countedFor (counted : List Mention) (entryId : Nat) : Nat := counted.countP fun m => decide (m.2 = entryId)

/-- How many sessions mention an entry. -/
def sessionsOf (mentions : List Mention) (entryId : Nat) : Nat :=
  (mentions.filter fun m => decide (m.2 = entryId)).dedup.length

/-- How often an entry is mentioned. -/
def mentionsOf (mentions : List Mention) (entryId : Nat) : Nat := mentions.countP fun m => decide (m.2 = entryId)

section Counted

variable {counted mentions : List Mention} {m : Mention} {e : Nat}

theorem mem_noted {m' : Mention} : m' ∈ noted counted m ↔ m' = m ∨ m' ∈ counted := by
  unfold noted
  split_ifs with h
  · constructor
    · exact .inr
    · rintro (rfl | hmem)
      · exact h
      · exact hmem
  · exact List.mem_cons

theorem nodup_noted (h : counted.Nodup) : (noted counted m).Nodup := by
  unfold noted
  split_ifs with hmem
  · exact h
  · exact List.nodup_cons.mpr ⟨hmem, h⟩

theorem countedFor_noted :
    countedFor (noted counted m) e = countedFor counted e + if e = m.2 then (if m ∈ counted then 0 else 1) else 0 := by
  unfold noted countedFor
  split_ifs with hmem he he
  · rfl
  · rfl
  · rw [List.countP_cons_of_pos (by simp [he])]
  · rw [List.countP_cons_of_neg (by simp [Ne.symm he])]
    rfl

/-- No session is counted for an entry that did not mention it. -/
theorem countedFor_le (hnodup : counted.Nodup) (h : ∀ m ∈ counted, m ∈ mentions) :
    countedFor counted e ≤ sessionsOf mentions e := by
  unfold countedFor sessionsOf
  rw [List.countP_eq_length_filter]
  refine (List.subperm_of_subset (hnodup.filter _) fun m hm => ?_).length_le
  obtain ⟨hmem, he⟩ := List.mem_filter.mp hm
  exact List.mem_dedup.mpr (List.mem_filter.mpr ⟨h m hmem, he⟩)

/-- All sessions that mention an entry are counted. -/
theorem countedFor_eq (hnodup : counted.Nodup) (h : ∀ m, m ∈ counted ↔ m ∈ mentions) :
    countedFor counted e = sessionsOf mentions e := by
  unfold countedFor sessionsOf
  rw [List.countP_eq_length_filter]
  refine List.Perm.length_eq ((List.perm_ext_iff_of_nodup (hnodup.filter _) (List.nodup_dedup _)).mpr fun m => ?_)
  rw [List.mem_dedup, List.mem_filter, List.mem_filter, h m]

end Counted

section Passes

variable {featureCycle : String} {fetched : Nat → Option (String × String)} {order : Order} {now : Nat}
  {p p' p'' : Pass} {m : Mention} {ms ms' : List Mention}

theorem contains_bump {acc : Accumulator} {entryId : Nat} {f : EntryAnalysis → EntryAnalysis}
    {hf : ∀ a, (f a).entryId = a.entryId} (e : Nat) :
    (acc.bump featureCycle entryId f hf).contains featureCycle e = acc.contains featureCycle e := by
  unfold Accumulator.contains Accumulator.entriesOf Accumulator.bump Accumulator.replace
  simp only [Function.update_self]
  cases acc.buckets featureCycle with
  | none => rfl
  | some b =>
    simp only [Option.map_some, Option.getD_some, FeatureBucket.modify, List.any_map]
    refine List.any_congr rfl fun a => ?_
    simp only [Function.comp_apply]
    split_ifs
    · rw [hf a]
    · rfl

/-- What the passes over helpful signals add: a success for each session that is counted, and nothing else. -/
structure Helpful (featureCycle : String) (p p' : Pass) : Prop where
  le : ∀ e, countedFor p.counted e ≤ countedFor p'.counted e
  successes : Adds .successSessions featureCycle (fun e => countedFor p'.counted e - countedFor p.counted e) p.acc
    p'.acc
  others : ∀ k, k ≠ .successSessions → Adds k featureCycle (fun _ => 0) p.acc p'.acc

theorem Helpful.refl (p : Pass) : Helpful featureCycle p p where
  le _ := Nat.le_refl _
  successes := (Adds.refl p.acc).congr fun _ => (Nat.sub_self _).symm
  others _ _ := Adds.refl p.acc

theorem Helpful.trans (h : Helpful featureCycle p p') (h' : Helpful featureCycle p' p'') :
    Helpful featureCycle p p'' where
  le e := Nat.le_trans (h.le e) (h'.le e)
  successes := (h.successes.trans h'.successes).congr fun e => by
    have hle := h.le e
    have hle' := h'.le e
    omega
  others k hk := (h.others k hk).trans (h'.others k hk)

/-- What is added for one mention that is counted. -/
theorem helpful_of_adds {acc' : Accumulator} {needing : List Nat}
    (hsuccess : Adds .successSessions featureCycle
      (fun e => if e = m.2 then (if m ∈ p.counted then 0 else 1) else 0) p.acc acc')
    (hothers : ∀ k, k ≠ .successSessions → Adds k featureCycle (fun _ => 0) p.acc acc') :
    Helpful featureCycle p ⟨acc', noted p.counted m, needing⟩ where
  le e := by
    dsimp only
    rw [countedFor_noted]
    exact Nat.le_add_right _ _
  successes := hsuccess.congr fun e => by
    dsimp only
    rw [countedFor_noted, Nat.add_sub_cancel_left]
  others := hothers

theorem countSuccess_helpful (h : p.acc.contains featureCycle m.2 = true) :
    Helpful featureCycle p (countSuccess featureCycle p m) := by
  unfold countSuccess
  split_ifs with hmem
  · exact Helpful.refl p
  · have hnoted : m :: p.counted = noted p.counted m := (if_neg hmem).symm
    rw [hnoted]
    refine helpful_of_adds ((bump_spec (fun a => rfl) h).congr fun e => by rw [if_neg hmem]) fun k hk => ?_
    have hvalue (a : EntryAnalysis) : (addSuccess a).value k = a.value k + 0 := by
      cases k with
      | successSessions => exact absurd rfl hk
      | reworkSessions | reworkFlags => rfl
    exact (bump_spec hvalue h).congr fun e => ite_self 0

theorem firstStep_helpful : Helpful featureCycle p (firstStep featureCycle p m) := by
  unfold firstStep
  split_ifs with h
  · exact countSuccess_helpful h
  · exact ⟨fun _ => Nat.le_refl _, (Adds.refl p.acc).congr fun _ => (Nat.sub_self _).symm, fun _ _ => Adds.refl p.acc⟩

theorem thirdStep_helpful : Helpful featureCycle p (thirdStep featureCycle fetched order now p m) := by
  unfold thirdStep
  cases fetched m.2 with
  | none => exact Helpful.refl p
  | some info =>
    dsimp only
    by_cases h : p.acc.contains featureCycle m.2 = true
    · rw [if_pos h]
      exact countSuccess_helpful h
    · rw [if_neg h]
      refine helpful_of_adds (upsert_spec order now _) fun k hk => ?_
      refine (upsert_spec order now _).congr fun e => ?_
      cases k with
      | successSessions => exact absurd rfl hk
      | reworkSessions | reworkFlags => exact ite_self 0

theorem foldl_helpful {step : Pass → Mention → Pass} (hstep : ∀ p m, Helpful featureCycle p (step p m)) (p : Pass)
    (ms : List Mention) : Helpful featureCycle p (ms.foldl step p) := by
  induction ms generalizing p with
  | nil => exact Helpful.refl p
  | cons m ms ih => exact (hstep p m).trans (ih _)

/-- What the pass over flagged signals adds: a session for each that is counted, and a flag for each mention. -/
structure Flagged (featureCycle : String) (ms : List Mention) (p p' : Pass) : Prop where
  le : ∀ e, countedFor p.counted e ≤ countedFor p'.counted e
  sessions : Adds .reworkSessions featureCycle (fun e => countedFor p'.counted e - countedFor p.counted e) p.acc p'.acc
  flags : Adds .reworkFlags featureCycle (mentionsOf ms) p.acc p'.acc
  successes : Adds .successSessions featureCycle (fun _ => 0) p.acc p'.acc

theorem Flagged.refl (p : Pass) : Flagged featureCycle [] p p where
  le _ := Nat.le_refl _
  sessions := (Adds.refl p.acc).congr fun _ => (Nat.sub_self _).symm
  flags := Adds.refl p.acc
  successes := Adds.refl p.acc

theorem Flagged.trans (h : Flagged featureCycle ms p p') (h' : Flagged featureCycle ms' p' p'') :
    Flagged featureCycle (ms ++ ms') p p'' where
  le e := Nat.le_trans (h.le e) (h'.le e)
  sessions := (h.sessions.trans h'.sessions).congr fun e => by
    have hle := h.le e
    have hle' := h'.le e
    omega
  flags := (h.flags.trans h'.flags).congr fun e => (List.countP_append ..).symm
  successes := h.successes.trans h'.successes

theorem mentionsOf_singleton (e : Nat) : mentionsOf [m] e = if e = m.2 then 1 else 0 := by
  unfold mentionsOf
  rw [List.countP_singleton]
  by_cases h : e = m.2
  · simp [h]
  · simp [h, Ne.symm h]

theorem flagged_of_adds {acc' : Accumulator} {needing : List Nat}
    (hsessions : Adds .reworkSessions featureCycle
      (fun e => if e = m.2 then (if m ∈ p.counted then 0 else 1) else 0) p.acc acc')
    (hflags : Adds .reworkFlags featureCycle (fun e => if e = m.2 then 1 else 0) p.acc acc')
    (hsuccesses : Adds .successSessions featureCycle (fun _ => 0) p.acc acc') :
    Flagged featureCycle [m] p ⟨acc', noted p.counted m, needing⟩ where
  le e := by
    dsimp only
    rw [countedFor_noted]
    exact Nat.le_add_right _ _
  sessions := hsessions.congr fun e => by
    dsimp only
    rw [countedFor_noted, Nat.add_sub_cancel_left]
  flags := hflags.congr fun e => (mentionsOf_singleton e).symm
  successes := hsuccesses

theorem flaggedStep_flagged : Flagged featureCycle [m] p (flaggedStep featureCycle fetched order now p m) := by
  unfold flaggedStep
  dsimp only
  by_cases h : p.acc.contains featureCycle m.2 = true
  · rw [if_pos h]
    have hsessions (a : EntryAnalysis) : (addRework (decide (m ∉ p.counted)) a).value .reworkSessions =
        a.value .reworkSessions + if m ∈ p.counted then 0 else 1 := by
      by_cases hmem : m ∈ p.counted
      · simp [addRework, EntryAnalysis.value, hmem]
      · simp [addRework, EntryAnalysis.value, hmem]
    have hflags (a : EntryAnalysis) : (addRework (decide (m ∉ p.counted)) a).value .reworkFlags =
        a.value .reworkFlags + 1 := rfl
    have hsuccesses (a : EntryAnalysis) : (addRework (decide (m ∉ p.counted)) a).value .successSessions =
        a.value .successSessions + 0 := rfl
    exact flagged_of_adds (bump_spec hsessions h) (bump_spec hflags h)
      ((bump_spec hsuccesses h).congr fun e => ite_self 0)
  · rw [if_neg h]
    refine flagged_of_adds ((upsert_spec order now _).congr fun e => ?_) (upsert_spec order now _) ?_
    · by_cases hmem : m ∈ p.counted
      · simp [EntryAnalysis.value, hmem]
      · simp [EntryAnalysis.value, hmem]
    · refine (upsert_spec order now _).congr fun e => ?_
      exact ite_self 0

theorem foldl_flagged (p : Pass) (ms : List Mention) :
    Flagged featureCycle ms p (ms.foldl (flaggedStep featureCycle fetched order now) p) := by
  induction ms generalizing p with
  | nil => exact Flagged.refl p
  | cons m ms ih => exact flaggedStep_flagged.trans (ih _)

/-! ## Who is counted -/

theorem countSuccess_counted : (countSuccess featureCycle p m).counted = noted p.counted m := by
  unfold countSuccess noted
  split_ifs <;> rfl

/-- Who is counted after the passes: those of the mentions that a pass handles. -/
structure Counted (handles : Nat → Bool) (ms : List Mention) (p p' : Pass) : Prop where
  mem : ∀ m, m ∈ p'.counted ↔ m ∈ p.counted ∨ m ∈ ms ∧ handles m.2 = true
  nodup : p.counted.Nodup → p'.counted.Nodup

theorem counted_foldl {P : Pass → Prop} {handles : Nat → Bool} {step : Pass → Mention → Pass}
    (hstep : ∀ p m, P p → P (step p m) ∧
      (step p m).counted = if handles m.2 then noted p.counted m else p.counted) (hp : P p) (ms : List Mention) :
    Counted handles ms p (ms.foldl step p) := by
  induction ms generalizing p with
  | nil => exact ⟨fun m => by simp, id⟩
  | cons m ms ih =>
    obtain ⟨hnext, hcounted⟩ := hstep p m hp
    obtain ⟨hmem, hnodup⟩ := ih hnext
    rw [hcounted] at hmem hnodup
    refine ⟨fun m' => ?_, fun h => hnodup ?_⟩
    · rw [List.foldl_cons, hmem m']
      cases hm : handles m.2
      · simp only [Bool.false_eq_true, if_false, List.mem_cons]
        constructor
        · rintro (h | ⟨h, hh⟩)
          · exact .inl h
          · exact .inr ⟨.inr h, hh⟩
        · rintro (h | ⟨rfl | h, hh⟩)
          · exact .inl h
          · rw [hm] at hh
            cases hh
          · exact .inr ⟨h, hh⟩
      · simp only [if_true, mem_noted, List.mem_cons]
        constructor
        · rintro ((rfl | h) | ⟨h, hh⟩)
          · exact .inr ⟨.inl rfl, hm⟩
          · exact .inl h
          · exact .inr ⟨.inr h, hh⟩
        · rintro (h | ⟨rfl | h, hh⟩)
          · exact .inl (.inr h)
          · exact .inl (.inl rfl)
          · exact .inr ⟨h, hh⟩
    · split_ifs
      · exact nodup_noted h
      · exact h

theorem thirdPass_counted (p : Pass) (ms : List Mention) :
    Counted (fun e => (fetched e).isSome) ms p (ms.foldl (thirdStep featureCycle fetched order now) p) := by
  refine counted_foldl (P := fun _ => True) (fun p m _ => ⟨trivial, ?_⟩) trivial ms
  unfold thirdStep
  cases fetched m.2 with
  | none => rfl
  | some info =>
    dsimp only
    rw [Option.isSome_some, if_pos rfl]
    by_cases h : p.acc.contains featureCycle m.2 = true
    · rw [if_pos h]
      exact countSuccess_counted
    · rw [if_neg h]

theorem flaggedPass_counted (p : Pass) (ms : List Mention) :
    Counted (fun _ => true) ms p (ms.foldl (flaggedStep featureCycle fetched order now) p) := by
  refine counted_foldl (P := fun _ => True) (fun p m _ => ⟨trivial, ?_⟩) trivial ms
  unfold flaggedStep
  dsimp only
  rw [if_pos rfl]
  by_cases h : p.acc.contains featureCycle m.2 = true
  · rw [if_pos h]
  · rw [if_neg h]

theorem firstStep_contains (e : Nat) :
    (firstStep featureCycle p m).acc.contains featureCycle e = p.acc.contains featureCycle e := by
  unfold firstStep countSuccess
  split_ifs
  · rfl
  · exact contains_bump e
  · rfl

/-- The first pass counts for the entries that are there. -/
theorem firstPass_counted (p : Pass) (ms : List Mention) :
    Counted (p.acc.contains featureCycle) ms p (ms.foldl (firstStep featureCycle) p) := by
  refine counted_foldl (P := fun q => q.acc.contains featureCycle = p.acc.contains featureCycle)
    (fun q m hq => ⟨(funext firstStep_contains).trans hq, ?_⟩) rfl ms
  unfold firstStep
  rw [hq]
  split_ifs
  · exact countSuccess_counted
  · rfl

/-- It leaves the others. -/
theorem firstPass_needing (p : Pass) (ms : List Mention) (e : Nat) :
    e ∈ (ms.foldl (firstStep featureCycle) p).needing ↔
      e ∈ p.needing ∨ p.acc.contains featureCycle e = false ∧ ∃ m ∈ ms, m.2 = e := by
  induction ms generalizing p with
  | nil => simp
  | cons m ms ih =>
    rw [List.foldl_cons, ih, firstStep_contains]
    unfold firstStep countSuccess
    by_cases h : p.acc.contains featureCycle m.2 = true
    · have hneeding : (if p.acc.contains featureCycle m.2 then (if m ∈ p.counted then p else
          { p with acc := p.acc.bump featureCycle m.2 addSuccess fun _ => rfl, counted := m :: p.counted })
          else { p with needing := p.needing ++ [m.2] }).needing = p.needing := by
        rw [if_pos h]
        split_ifs <;> rfl
      rw [hneeding]
      constructor
      · rintro (hmem | ⟨hnot, m', hm', he⟩)
        · exact .inl hmem
        · exact .inr ⟨hnot, m', List.mem_cons_of_mem _ hm', he⟩
      · rintro (hmem | ⟨hnot, m', hm', rfl⟩)
        · exact .inl hmem
        · rcases List.mem_cons.mp hm' with rfl | hm'
          · rw [h] at hnot
            cases hnot
          · exact .inr ⟨hnot, m', hm', rfl⟩
    · rw [if_neg h]
      simp only [List.mem_append, List.mem_singleton]
      constructor
      · rintro ((hmem | rfl) | ⟨hnot, m', hm', he⟩)
        · exact .inl hmem
        · exact .inr ⟨Bool.eq_false_iff.mpr h, m, List.mem_cons_self, rfl⟩
        · exact .inr ⟨hnot, m', List.mem_cons_of_mem _ hm', he⟩
      · rintro (hmem | ⟨hnot, m', hm', rfl⟩)
        · exact .inl (.inl hmem)
        · rcases List.mem_cons.mp hm' with rfl | hm'
          · exact .inl (.inr rfl)
          · exact .inr ⟨hnot, m', hm', rfl⟩

end Passes

end Unimatrix.PendingAnalysis
