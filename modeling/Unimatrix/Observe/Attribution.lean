import Unimatrix.Distill.Select
import Unimatrix.Hook.TopicSignal
import Unimatrix.Lib.Carry

/-!
# Attribution of records to features

Model of `attribute_sessions`: which records of some sessions belong to a feature. A session is cut into partitions where
a record gives a signal for another feature than the one before; what comes before the first signal belongs to that
signal's feature.

* A text is its code points. `toJson` is `serde_json::to_string` on an object, any function.
* The two `Vec`s of references are lists of records.

`featureAt` is what this comes to for a single record: the last signal up to it, or else the first of the session.
**`attributeSessions_partitions`**: over all features that are named, `attribute_sessions` parts the records of the
sessions with a signal.
-/

namespace Unimatrix.Attribution

open Json TopicSignal Carry

/-! ## The code -/

/-- `ObservationRecord`. -/
structure ObservationRecord where
  ts : UInt64
  eventType : List Char
  sourceDomain : List Char
  sessionId : List Char
  tool : Option (List Char)
  input : Option Value
  responseSize : Option UInt64
  responseSnippet : Option (List Char)
  modelId : Option (List Char)

/-- `ParsedSession`. -/
structure ParsedSession where
  sessionId : List Char
  records : List ObservationRecord

/-- What other crates do: the letters and digits of `char`, and `serde_json::to_string`. -/
structure Crates where
  table : AlnumTable
  toJson : Value → List Char

variable (crates : Crates)

/-- `input_str`. -/
def inputStr : Value → List Char
  | .string s => Distill.toStr s
  | .object fields => crates.toJson (.object fields)
  | _ => []

/-- `extract_feature_signal`. -/
def extractFeatureSignal (record : ObservationRecord) : Option (List Char) :=
  record.input.bind fun input =>
    let s := inputStr crates input
    let classes := rustClasses crates.table
    (extractFromPath s).or ((classes.extractFeatureIdPattern s).or (classes.extractFromGitCheckout s))

/-- The state of the loop over a session's records. -/
structure Walk where
  currentFeature : Option (List Char)
  partitions : List (Option (List Char) × List ObservationRecord)
  currentRecords : List ObservationRecord

namespace Walk

/-- The partitions with the records that have been collected, if there are any. -/
def flush (w : Walk) : List (Option (List Char) × List ObservationRecord) :=
  if w.currentRecords.isEmpty then w.partitions else w.partitions ++ [(w.currentFeature, w.currentRecords)]

/-- A feature switch point. -/
def switch (w : Walk) (signal : List Char) : Walk := ⟨some signal, w.flush, []⟩

/-- The body of the loop. -/
def record (w : Walk) (r : ObservationRecord) : Walk :=
  let w := match extractFeatureSignal crates r with
    | some signal => if w.currentFeature ≠ some signal then w.switch signal else w
    | none => w
  { w with currentRecords := w.currentRecords ++ [r] }

end Walk

/-- The partitions of a session. -/
def partitionsOf (session : ParsedSession) : List (Option (List Char) × List ObservationRecord) :=
  (session.records.foldl (Walk.record crates) ⟨none, [], []⟩).flush

/-- `attribute_sessions`. -/
def attributeSessions (sessions : List ParsedSession) (targetFeature : List Char) : List ObservationRecord :=
  sessions.flatMap fun session =>
    let partitions := partitionsOf crates session
    let firstFeature := partitions.findSome? Prod.fst
    partitions.flatMap fun p => if p.1.or firstFeature = some targetFeature then p.2 else []

/-! ## What it is to be -/

/-- The first signal of a session. -/
def firstSignal (session : ParsedSession) : Option (List Char) := session.records.findSome? (extractFeatureSignal crates)

/-- The feature that the record at a position belongs to: that of the last signal up to it, or else of the first. -/
def featureAt (session : ParsedSession) (i : Nat) : Option (List Char) :=
  ((session.records.take (i + 1)).reverse.findSome? (extractFeatureSignal crates)).or (firstSignal crates session)

/-- The positions of a session's records that belong to a feature. -/
def attributedAt (session : ParsedSession) (feature : List Char) : List Nat :=
  (List.range session.records.length).filter fun i => featureAt crates session i = some feature

/-- A feature is named by a signal. -/
def Named (sessions : List ParsedSession) (feature : List Char) : Prop :=
  ∃ session ∈ sessions, ∃ r ∈ session.records, extractFeatureSignal crates r = some feature

/-- A session carries a signal. -/
def Signalled (session : ParsedSession) : Prop := (firstSignal crates session).isSome

instance (session : ParsedSession) : Decidable (Signalled crates session) :=
  inferInstanceAs (Decidable ((firstSignal crates session).isSome = true))

/-- What one run for each feature is to come to. -/
structure Partitions (sessions : List ParsedSession) : Prop where
  /-- The output for a feature has the records at its positions, session by session. -/
  outputs : ∀ feature, attributeSessions crates sessions feature =
    sessions.flatMap fun session => (attributedAt crates session feature).filterMap fun i => session.records[i]?
  ordered : ∀ session ∈ sessions, ∀ feature, (attributedAt crates session feature).Pairwise (· < ·)
  disjoint : ∀ session ∈ sessions, ∀ f g, f ≠ g →
    (attributedAt crates session f).Disjoint (attributedAt crates session g)
  /-- A record belongs to a feature that is named exactly if its session carries a signal. -/
  complete : ∀ session ∈ sessions, ∀ i < session.records.length,
    (∃ f, Named crates sessions f ∧ i ∈ attributedAt crates session f) ↔ Signalled crates session
  /-- Before the first signal it is that signal's feature. -/
  early : ∀ session ∈ sessions, ∀ i < session.records.length,
    (∀ r ∈ session.records.take (i + 1), extractFeatureSignal crates r = none) →
      ∀ f, i ∈ attributedAt crates session f ↔ firstSignal crates session = some f
  /-- The outputs for all features that are named are together the records of the sessions with a signal. -/
  union : ∀ features : List (List Char), features.Nodup → (∀ f, f ∈ features ↔ Named crates sessions f) →
    (features.flatMap (attributeSessions crates sessions)).Perm
      ((sessions.filter fun session => Signalled crates session).flatMap ParsedSession.records)

/-! ## The partitions of a session -/

/-- The records with the features of their partitions. -/
def tagged (partitions : List (Option (List Char) × List ObservationRecord)) :
    List (ObservationRecord × Option (List Char)) :=
  partitions.flatMap fun p => p.2.map fun r => (r, p.1)

section Session

variable {crates} {session : ParsedSession}

theorem tagged_flush (w : Walk) :
    tagged w.flush = tagged w.partitions ++ w.currentRecords.map fun r => (r, w.currentFeature) := by
  unfold Walk.flush
  split
  · rename_i hempty
    rw [List.isEmpty_iff.mp hempty, List.map_nil, List.append_nil]
  · unfold tagged
    rw [List.flatMap_append, List.flatMap_singleton]

/-- After some records each has the last feature that was named, and no partition is empty. -/
structure WalkInv (crates : Crates) (done : List ObservationRecord) (w : Walk) : Prop where
  tagged : tagged w.partitions ++ (w.currentRecords.map fun r => (r, w.currentFeature)) =
    carry (extractFeatureSignal crates) none done
  current : w.currentFeature = lastSignal (extractFeatureSignal crates) none done
  nonempty : ∀ p ∈ w.partitions, p.2 ≠ []

theorem flush_nonempty {w : Walk} (h : ∀ p ∈ w.partitions, p.2 ≠ []) : ∀ p ∈ w.flush, p.2 ≠ [] := by
  unfold Walk.flush
  split
  · exact h
  · rename_i hrecords
    intro p hp
    rcases List.mem_append.mp hp with hp | hp
    · exact h p hp
    · rw [List.mem_singleton.mp hp]
      exact fun he => hrecords (List.isEmpty_iff.mpr he)

/-- **A record is tagged with the last signal up to it.** -/
theorem WalkInv.record {done : List ObservationRecord} {w : Walk} (h : WalkInv crates done w) (r : ObservationRecord) :
    WalkInv crates (done ++ [r]) (w.record crates r) := by
  have hlast : lastSignal (extractFeatureSignal crates) none (done ++ [r]) =
      (extractFeatureSignal crates r).or w.currentFeature := by
    rw [h.current]
    exact List.foldl_concat _ _ _ _
  have hcarry : carry (extractFeatureSignal crates) none (done ++ [r]) =
      Attribution.tagged w.partitions ++ (w.currentRecords.map fun r => (r, w.currentFeature)) ++
        [(r, (extractFeatureSignal crates r).or w.currentFeature)] := by
    rw [carry_append, ← h.tagged, ← h.current]
    rfl
  unfold Walk.record
  cases hsignal : extractFeatureSignal crates r with
  | none =>
    rw [hsignal, Option.none_or] at hlast hcarry
    simp only
    refine ⟨?_, hlast.symm, h.nonempty⟩
    rw [hcarry, List.map_append, List.append_assoc]
    rfl
  | some signal =>
    rw [hsignal, Option.some_or] at hlast hcarry
    simp only
    split
    · -- a feature switch point
      refine ⟨?_, hlast.symm, flush_nonempty h.nonempty⟩
      rw [hcarry, Walk.switch, tagged_flush]
      rfl
    · rename_i hsame
      have hcurrent := not_not.mp hsame
      refine ⟨?_, hcurrent.trans hlast.symm, h.nonempty⟩
      rw [hcarry, List.map_append, List.append_assoc, hcurrent]
      rfl

theorem walk_inv (crates : Crates) (records : List ObservationRecord) :
    WalkInv crates records (records.foldl (Walk.record crates) ⟨none, [], []⟩) := by
  induction records using List.reverseRecOn with
  | nil => exact ⟨rfl, rfl, fun p hp => by cases hp⟩
  | append_singleton records r ih =>
    rw [List.foldl_concat]
    exact ih.record r

theorem tagged_partitionsOf (crates : Crates) (session : ParsedSession) :
    tagged (partitionsOf crates session) = carry (extractFeatureSignal crates) none session.records := by
  unfold partitionsOf
  rw [tagged_flush]
  exact (walk_inv crates session.records).tagged

/-- The first feature of some partitions is that of their records. -/
theorem findSome?_tagged {partitions : List (Option (List Char) × List ObservationRecord)}
    (h : ∀ p ∈ partitions, p.2 ≠ []) : (tagged partitions).findSome? Prod.snd = partitions.findSome? Prod.fst := by
  induction partitions with
  | nil => rfl
  | cons p partitions ih =>
    obtain ⟨r, rs, hrs⟩ := List.exists_cons_of_ne_nil (h p List.mem_cons_self)
    have hrest := ih fun q hq => h q (List.mem_cons_of_mem _ hq)
    unfold tagged at hrest ⊢
    rw [List.flatMap_cons, List.findSome?_append, hrest, List.findSome?_cons, hrs, List.map_cons, List.findSome?_cons]
    cases hp : p.1 with
    | some f => rfl
    | none =>
      have hnone : (rs.map fun r => (r, (none : Option (List Char)))).findSome? Prod.snd = none :=
        List.findSome?_eq_none_iff.mpr fun q hq => by
          obtain ⟨r', -, rfl⟩ := List.mem_map.mp hq
          rfl
      simp only [hnone, Option.none_or]

theorem firstFeature_eq (crates : Crates) (session : ParsedSession) :
    (partitionsOf crates session).findSome? Prod.fst = firstSignal crates session := by
  have hnonempty : ∀ p ∈ partitionsOf crates session, p.2 ≠ [] :=
    flush_nonempty (walk_inv crates session.records).nonempty
  rw [← findSome?_tagged hnonempty, tagged_partitionsOf, findSome?_carry]
  rfl

/-- The records of a session with the features they belong to. -/
def labelled (crates : Crates) (session : ParsedSession) : List (ObservationRecord × Option (List Char)) :=
  carry (extractFeatureSignal crates) (firstSignal crates session) session.records

/-- Records with the feature of their partition, or another one if it has none. -/
theorem flatMap_partitions (partitions : List (Option (List Char) × List ObservationRecord))
    (first : Option (List Char)) (feature : List Char) :
    (partitions.flatMap fun p => if p.1.or first = some feature then p.2 else []) =
      (((tagged partitions).map fun p => (p.1, p.2.or first)).filter fun p => p.2 = some feature).map Prod.fst := by
  induction partitions with
  | nil => rfl
  | cons p partitions ih =>
    unfold tagged at ih ⊢
    rw [List.flatMap_cons, List.flatMap_cons, List.map_append, List.filter_append, List.map_append, ih, List.map_map]
    congr 1
    split
    · rename_i heq
      rw [List.filter_eq_self.mpr fun q hq => ?_, List.map_map]
      · exact (List.map_id p.2).symm
      · obtain ⟨r, -, rfl⟩ := List.mem_map.mp hq
        exact decide_eq_true heq
    · rename_i hne
      rw [List.filter_eq_nil_iff.mpr fun q hq => ?_]
      · rfl
      · obtain ⟨r, -, rfl⟩ := List.mem_map.mp hq
        exact fun he => hne (of_decide_eq_true he)

/-- **The output for a feature are the records with its label.** -/
theorem attributeSessions_eq (crates : Crates) (sessions : List ParsedSession) (feature : List Char) :
    attributeSessions crates sessions feature =
      ((sessions.flatMap (labelled crates)).filter fun p => p.2 = some feature).map Prod.fst := by
  unfold attributeSessions
  rw [List.filter_flatMap, List.map_flatMap]
  refine List.flatMap_congr fun session _ => ?_
  simp only
  rw [flatMap_partitions, tagged_partitionsOf, firstFeature_eq, carry_or, Option.none_or]
  rfl

theorem length_labelled (crates : Crates) (session : ParsedSession) :
    (labelled crates session).length = session.records.length := by
  have h := congrArg List.length
    (map_fst_carry (extractFeatureSignal crates) (firstSignal crates session) session.records)
  rwa [List.length_map] at h

theorem getElem?_labelled (crates : Crates) (session : ParsedSession) (i : Nat) :
    (labelled crates session)[i]? = session.records[i]?.map fun r => (r, featureAt crates session i) :=
  getElem?_carry _ _ _ _

/-- A list from its positions. -/
theorem filterMap_range_getElem? {α : Type} (l : List α) (p : Nat → Bool) (q : α → Bool)
    (h : ∀ i a, l[i]? = some a → p i = q a) :
    (((List.range l.length).filter p).filterMap fun i => l[i]?) = l.filter q := by
  induction l using List.reverseRecOn with
  | nil => rfl
  | append_singleton l a ih =>
    have hold : (((List.range l.length).filter p).filterMap fun i => (l ++ [a])[i]?) = l.filter q := by
      rw [← ih fun i b hb => h i b (by
        rw [List.getElem?_append_left (List.getElem?_eq_some_iff.mp hb).1]
        exact hb)]
      refine List.filterMap_congr fun i hi => ?_
      exact List.getElem?_append_left (List.mem_range.mp (List.mem_filter.mp hi).1)
    have hlast : (l ++ [a])[l.length]? = some a := List.getElem?_concat_length
    rw [List.length_append, List.length_singleton, List.range_succ, List.filter_append, List.filterMap_append, hold,
      List.filter_append]
    congr 1
    cases hp : p l.length with
    | true =>
      have hq : q a = true := (h _ _ hlast).symm.trans hp
      simp [hp, hq]
    | false =>
      have hq : q a = false := (h _ _ hlast).symm.trans hp
      simp [hp, hq]

theorem filterMap_attributedAt (crates : Crates) (session : ParsedSession) (feature : List Char) :
    ((attributedAt crates session feature).filterMap fun i => session.records[i]?) =
      ((labelled crates session).filter fun p => p.2 = some feature).map Prod.fst := by
  have hpositions := filterMap_range_getElem? (labelled crates session)
    (fun i => decide (featureAt crates session i = some feature)) (fun p => decide (p.2 = some feature))
    fun i p hp => by
      rw [getElem?_labelled] at hp
      obtain ⟨r, -, rfl⟩ := Option.map_eq_some_iff.mp hp
      rfl
  rw [← hpositions, List.map_filterMap, length_labelled]
  unfold attributedAt
  refine List.filterMap_congr fun i _ => ?_
  rw [getElem?_labelled, Option.map_map]
  cases session.records[i]? <;> rfl

theorem mem_attributedAt {i : Nat} {feature : List Char} : i ∈ attributedAt crates session feature ↔
    i < session.records.length ∧ featureAt crates session i = some feature := by
  unfold attributedAt
  rw [List.mem_filter, List.mem_range, decide_eq_true_eq]

end Session

/-! ## All features -/

/-- A record has a label exactly if its session carries a signal. -/
theorem filter_labelled (session : ParsedSession) : (labelled crates session).filter (fun p => p.2.isSome) =
    if Signalled crates session then labelled crates session else [] := by
  split
  · rename_i hsome
    exact List.filter_eq_self.mpr fun p hp => isSome_of_mem_carry _ hsome hp
  · rename_i hnone
    refine List.filter_eq_nil_iff.mpr fun p hp hsome => hnone ?_
    obtain ⟨f, hf⟩ := Option.isSome_iff_exists.mp hsome
    rcases mem_carry _ hp hf with ⟨r, hr, hs⟩ | hfirst
    · exact List.findSome?_isSome_iff.mpr ⟨r, hr, by rw [hs]; rfl⟩
    · exact Option.isSome_of_eq_some hfirst

theorem flatMap_filter_labelled (sessions : List ParsedSession) :
    ((sessions.flatMap (labelled crates)).filter fun p => p.2.isSome).map Prod.fst =
      (sessions.filter fun session => Signalled crates session).flatMap ParsedSession.records := by
  induction sessions with
  | nil => rfl
  | cons session sessions ih =>
    rw [List.flatMap_cons, List.filter_append, List.map_append, ih, filter_labelled, List.filter_cons]
    by_cases h : Signalled crates session
    · rw [if_pos h, if_pos (decide_eq_true h), List.flatMap_cons]
      exact congrArg (· ++ _) (map_fst_carry _ _ _)
    · rw [if_neg h, if_neg fun hd => h (of_decide_eq_true hd)]
      rfl

/-- The feature that a record belongs to is named in its session. -/
theorem featureAt_named {session : ParsedSession} {i : Nat} {feature : List Char}
    (h : featureAt crates session i = some feature) :
    ∃ r ∈ session.records, extractFeatureSignal crates r = some feature := by
  unfold featureAt at h
  rcases Option.or_eq_some_iff.mp h with hlast | ⟨-, hfirst⟩
  · obtain ⟨r, hr, hs⟩ := List.exists_of_findSome?_eq_some hlast
    exact ⟨r, List.mem_of_mem_take (List.mem_reverse.mp hr), hs⟩
  · exact List.exists_of_findSome?_eq_some hfirst

/-- **One run for each feature that is named parts the records of the sessions with a signal.** -/
theorem attributeSessions_partitions (sessions : List ParsedSession) : Partitions crates sessions where
  outputs feature := by
    rw [attributeSessions_eq, List.filter_flatMap, List.map_flatMap]
    exact List.flatMap_congr fun session _ => (filterMap_attributedAt crates session feature).symm
  ordered session _ feature := List.Pairwise.filter _ List.pairwise_lt_range
  disjoint session _ f g hne i hf hg := by
    have heq := (mem_attributedAt.mp hf).2.symm.trans (mem_attributedAt.mp hg).2
    exact hne (Option.some.inj heq)
  complete session hsession i hi := by
    constructor
    · rintro ⟨f, -, hf⟩
      obtain ⟨r, hr, hs⟩ := featureAt_named crates (mem_attributedAt.mp hf).2
      exact List.findSome?_isSome_iff.mpr ⟨r, hr, by rw [hs]; rfl⟩
    · intro h
      have hsome : (featureAt crates session i).isSome := by
        have hfirst : (firstSignal crates session).isSome := h
        unfold featureAt
        rw [Option.isSome_or, hfirst, Bool.or_true]
      obtain ⟨f, hf⟩ := Option.isSome_iff_exists.mp hsome
      obtain ⟨r, hr, hs⟩ := featureAt_named crates hf
      exact ⟨f, ⟨session, hsession, r, hr, hs⟩, mem_attributedAt.mpr ⟨hi, hf⟩⟩
  early session _ i hi hnone f := by
    have hlast : (session.records.take (i + 1)).reverse.findSome? (extractFeatureSignal crates) = none :=
      List.findSome?_eq_none_iff.mpr fun r hr => hnone r (List.mem_reverse.mp hr)
    rw [mem_attributedAt]
    unfold featureAt
    rw [hlast, Option.none_or]
    exact and_iff_right hi
  union features hnodup hfeatures := by
    have hparts := flatMap_filter_perm hnodup (sessions.flatMap (labelled crates)) fun p hp f hf => by
      obtain ⟨session, hsession, hp⟩ := List.mem_flatMap.mp hp
      refine (hfeatures f).mpr ⟨session, hsession, ?_⟩
      rcases mem_carry _ hp hf with hnamed | hfirst
      · exact hnamed
      · exact List.exists_of_findSome?_eq_some hfirst
    have hmapped := hparts.map Prod.fst
    rw [flatMap_filter_labelled, List.map_flatMap] at hmapped
    rw [List.flatMap_congr fun f _ => attributeSessions_eq crates sessions f]
    exact hmapped

end Unimatrix.Attribution
