import Mathlib.Data.List.Nodup
import Mathlib.Data.List.Perm.Basic
import Unimatrix.Http.PublicUrl
import Unimatrix.Lib.SplitOnce

/-!
# The tags of an outcome

Model of `validate_outcome_tags` (`outcome_tags.rs`), which `context_store` (`tools.rs`) asks for an entry of the
category `outcome`. A tag with a colon is structured: what stands before the first colon is its key.

An `OutcomeRecord` is what such an entry says: a type, and up to five more fields, each with a value that it may have.
**`validateOutcomeTags_eq_ok`**: the tags are accepted if and only if they spell a record, which is then the only one.
-/

namespace Unimatrix.OutcomeTags

open SplitOnce

/-! ## The code -/

/-- `RECOGNIZED_KEYS`. -/
inductive Key where
  | type
  | gate
  | phase
  | result
  | agent
  | wave
  deriving DecidableEq, Repr

def Key.name : Key → List Char
  | .type => "type".toList
  | .gate => "gate".toList
  | .phase => "phase".toList
  | .result => "result".toList
  | .agent => "agent".toList
  | .wave => "wave".toList

/-- `RECOGNIZED_KEYS`, in its order. -/
def recognizedKeys : List Key := [.type, .gate, .phase, .result, .agent, .wave]

/-- `VALID_TYPES`. -/
def validTypes : List (List Char) := ["feature", "bugfix", "incident", "process", "session"].map String.toList

/-- `VALID_RESULTS`. -/
def validResults : List (List Char) := ["pass", "fail", "rework", "skip"].map String.toList

/-- `VALID_PHASES`. -/
def validPhases : List (List Char) :=
  ["research", "design", "implementation", "testing", "validation"].map String.toList

/-- `ServerError::InvalidInput`. -/
structure InvalidInput where
  field : String
  reason : List Char
  deriving DecidableEq

/-- The errors of the tags. -/
def invalidTags (reason : List Char) : InvalidInput := ⟨"tags", reason⟩

/-- `join(", ")`. -/
def join (texts : List (List Char)) : List Char := List.intercalate ", ".toList texts

/-- `parse_structured_tag`. -/
def parseStructuredTag (tag : List Char) : Option (List Char × List Char) := splitOnce ':' tag

/-- A value out of a list. -/
def validateOneOf (name : String) (valid : List (List Char)) (value : List Char) : Except InvalidInput Unit :=
  if valid.contains value then .ok ()
  else .error (invalidTags ("invalid ".toList ++ name.toList ++ " value '".toList ++ value ++ "'. Valid: ".toList ++
    join valid))

/-- A value that is not empty. -/
def validateNonEmpty (name : String) (value : List Char) : Except InvalidInput Unit :=
  if value = [] then .error (invalidTags (name.toList ++ " tag value cannot be empty".toList)) else .ok ()

/-- `validate_tag_key_value`, for a recognized key. -/
def validateTagKeyValue (key : Key) (value : List Char) : Except InvalidInput Unit :=
  match key with
  | .type => validateOneOf "type" validTypes value
  | .result => validateOneOf "result" validResults value
  | .phase => validateOneOf "phase" validPhases value
  | .gate => validateNonEmpty "gate" value
  | .agent => validateNonEmpty "agent" value
  | .wave =>
    if Http.parseUnsigned 4294967295 value = none then
      .error (invalidTags ("wave value '".toList ++ value ++ "' must be a non-negative integer".toList))
    else .ok ()

/-- The loop of `validate_outcome_tags`; what it returns is `has_type`. -/
def validateLoop : List (List Char) → Bool → List (List Char) → Except InvalidInput Bool
  | [], hasType, _ => .ok hasType
  | tag :: tags, hasType, seenKeys =>
    match parseStructuredTag tag with
    | none => validateLoop tags hasType seenKeys
    | some (key, value) =>
      match recognizedKeys.find? fun k => decide (k.name = key) with
      | none =>
        .error (invalidTags ("unknown structured tag key '".toList ++ key ++ "'. Recognized keys: ".toList ++
          join (recognizedKeys.map Key.name)))
      | some k =>
        if seenKeys.contains key then
          .error (invalidTags ("duplicate structured tag key '".toList ++ key ++ "'".toList))
        else
          match validateTagKeyValue k value with
          | .error e => .error e
          | .ok () => validateLoop tags (hasType || decide (k = .type)) (seenKeys ++ [key])

/-- `validate_outcome_tags`. -/
def validateOutcomeTags (tags : List (List Char)) : Except InvalidInput Unit :=
  match validateLoop tags false [] with
  | .error e => .error e
  | .ok true => .ok ()
  | .ok false =>
    .error (invalidTags ("type tag is required for outcome entries (e.g., type:feature, type:bugfix, type:incident, " ++
      "type:process, type:session)").toList)

/-! ## What is accepted -/

/-- The value is one that the key may have. -/
def Key.Valid (k : Key) (value : List Char) : Prop := validateTagKeyValue k value = .ok ()

/-- What an outcome says. -/
structure OutcomeRecord where
  fields : Key → Option (List Char)
  valid : ∀ k value, fields k = some value → k.Valid value
  typed : (fields .type).isSome

/-- The fields that a record has, with their names. -/
def OutcomeRecord.entries (r : OutcomeRecord) : List (List Char × List Char) :=
  recognizedKeys.filterMap fun k => (r.fields k).map fun value => (k.name, value)

/-- The structured tags of a list. -/
def structured (tags : List (List Char)) : List (List Char × List Char) := tags.filterMap parseStructuredTag

/-- Each key is a recognized one with a value it may have, none comes twice, and there is a type. -/
structure WellFormed (entries : List (List Char × List Char)) : Prop where
  nodup : (entries.map Prod.fst).Nodup
  valid : ∀ p ∈ entries, ∃ k : Key, k.name = p.1 ∧ k.Valid p.2
  typed : ∃ p ∈ entries, p.1 = Key.type.name

theorem name_injective : Function.Injective Key.name := by
  intro a b h
  cases a <;> cases b <;> first | rfl | exact absurd h (by decide)

theorem mem_recognizedKeys (k : Key) : k ∈ recognizedKeys := by
  cases k <;> decide

theorem find?_name (k : Key) : (recognizedKeys.find? fun k' => decide (k'.name = k.name)) = some k := by
  cases k <;> rfl

theorem find?_eq_none {key : List Char} :
    (recognizedKeys.find? fun k => decide (k.name = key)) = none ↔ ∀ k : Key, k.name ≠ key := by
  rw [List.find?_eq_none]
  exact ⟨fun h k heq => h k (mem_recognizedKeys k) (decide_eq_true heq), fun h k _ hdec => h k (of_decide_eq_true hdec)⟩

/-- What the loop accepts. -/
theorem validateLoop_eq_ok {tags : List (List Char)} {hasType b : Bool} {seenKeys : List (List Char)} :
    validateLoop tags hasType seenKeys = .ok b ↔
      ((structured tags).map Prod.fst).Nodup ∧ (∀ p ∈ structured tags, p.1 ∉ seenKeys) ∧
        (∀ p ∈ structured tags, ∃ k : Key, k.name = p.1 ∧ k.Valid p.2) ∧
        (b = true ↔ hasType = true ∨ ∃ p ∈ structured tags, p.1 = Key.type.name) := by
  induction tags generalizing hasType seenKeys with
  | nil => cases hasType <;> cases b <;> simp [validateLoop, structured]
  | cons tag tags ih =>
    unfold validateLoop
    cases hparse : parseStructuredTag tag with
    | none =>
      have hsame : structured (tag :: tags) = structured tags := List.filterMap_cons_none hparse
      rw [hsame]
      exact ih
    | some p =>
      obtain ⟨key, value⟩ := p
      have hcons : structured (tag :: tags) = (key, value) :: structured tags := List.filterMap_cons_some hparse
      rw [hcons]
      dsimp only
      cases hfind : recognizedKeys.find? fun k => decide (k.name = key) with
      | none =>
        constructor
        · intro h
          cases h
        · rintro ⟨-, -, hvalid, -⟩
          obtain ⟨k, hk, -⟩ := hvalid (key, value) List.mem_cons_self
          exact absurd hk (find?_eq_none.mp hfind k)
      | some k =>
        have hname : k.name = key := by simpa using List.find?_some hfind
        subst hname
        dsimp only
        by_cases hseen : k.name ∈ seenKeys
        · rw [if_pos (List.contains_iff_mem.mpr hseen)]
          constructor
          · intro h
            cases h
          · rintro ⟨-, hnew, -⟩
            exact absurd hseen (hnew (k.name, value) List.mem_cons_self)
        · rw [if_neg fun h => hseen (List.contains_iff_mem.mp h)]
          cases hcheck : validateTagKeyValue k value with
          | error e =>
            constructor
            · intro h
              cases h
            · rintro ⟨-, -, hvalid, -⟩
              obtain ⟨k', hk', hv⟩ := hvalid (k.name, value) List.mem_cons_self
              cases name_injective hk'
              rw [Key.Valid, hcheck] at hv
              cases hv
          | ok u =>
            have htype : decide (k = .type) = true ↔ k.name = Key.type.name :=
              decide_eq_true_iff.trans name_injective.eq_iff.symm
            simp only [ih, List.map_cons, List.nodup_cons, List.mem_map, List.forall_mem_cons, List.exists_mem_cons_iff,
              List.mem_append, List.mem_singleton, Bool.or_eq_true, htype]
            constructor
            · rintro ⟨hnodup, hnew, hvalid, htyped⟩
              refine ⟨⟨?_, hnodup⟩, ⟨hseen, fun p hp h => hnew p hp (.inl h)⟩, ⟨⟨k, rfl, hcheck⟩, hvalid⟩, ?_⟩
              · rintro ⟨p, hp, heq⟩
                exact hnew p hp (.inr heq)
              · rw [htyped, or_assoc]
            · rintro ⟨⟨hfirst, hnodup⟩, ⟨-, hnew⟩, ⟨-, hvalid⟩, htyped⟩
              refine ⟨hnodup, fun p hp h => ?_, hvalid, ?_⟩
              · rcases h with h | h
                · exact hnew p hp h
                · exact hfirst ⟨p, hp, h⟩
              · rw [htyped, or_assoc]

theorem validateOutcomeTags_iff {tags : List (List Char)} :
    validateOutcomeTags tags = .ok () ↔ WellFormed (structured tags) := by
  have hloop : validateOutcomeTags tags = .ok () ↔ validateLoop tags false [] = .ok true := by
    unfold validateOutcomeTags
    cases validateLoop tags false [] with
    | error e => simp
    | ok b => cases b <;> simp
  rw [hloop, validateLoop_eq_ok]
  constructor
  · rintro ⟨hnodup, -, hvalid, htyped⟩
    exact ⟨hnodup, hvalid, (htyped.mp rfl).resolve_left Bool.false_ne_true⟩
  · exact fun h => ⟨h.nodup, fun _ _ => List.not_mem_nil, h.valid, fun _ => .inr h.typed, fun _ => rfl⟩

theorem WellFormed.perm {l l' : List (List Char × List Char)} (h : WellFormed l) (hperm : l.Perm l') :
    WellFormed l' where
  nodup := (hperm.map Prod.fst).nodup_iff.mp h.nodup
  valid p hp := h.valid p (hperm.mem_iff.mpr hp)
  typed := h.typed.imp fun _ hp => ⟨hperm.mem_iff.mp hp.1, hp.2⟩

/-! ## Records -/

theorem OutcomeRecord.mem_entries {r : OutcomeRecord} {k : Key} {value : List Char} :
    (k.name, value) ∈ r.entries ↔ r.fields k = some value := by
  unfold OutcomeRecord.entries
  rw [List.mem_filterMap]
  constructor
  · rintro ⟨k', -, h⟩
    obtain ⟨v, hv, heq⟩ := Option.map_eq_some_iff.mp h
    obtain ⟨hk, rfl⟩ := Prod.mk.inj heq
    cases name_injective hk
    exact hv
  · exact fun h => ⟨k, mem_recognizedKeys k, by rw [h]; rfl⟩

theorem OutcomeRecord.wellFormed (r : OutcomeRecord) : WellFormed r.entries where
  nodup := by
    have hsub : (r.entries.map Prod.fst).Sublist (recognizedKeys.map Key.name) := by
      unfold OutcomeRecord.entries
      induction recognizedKeys with
      | nil => exact .slnil
      | cons k ks ih =>
        cases hk : r.fields k with
        | none =>
          rw [List.filterMap_cons_none (by rw [hk]; rfl)]
          exact ih.cons _
        | some v =>
          rw [List.filterMap_cons_some (by rw [hk]; rfl)]
          exact ih.cons_cons _
    exact hsub.nodup (List.Nodup.map name_injective (by decide))
  valid p hp := by
    obtain ⟨k, -, h⟩ := List.mem_filterMap.mp hp
    obtain ⟨v, hv, rfl⟩ := Option.map_eq_some_iff.mp h
    exact ⟨k, rfl, r.valid k v hv⟩
  typed := by
    obtain ⟨v, hv⟩ := Option.isSome_iff_exists.mp r.typed
    exact ⟨(Key.type.name, v), mem_entries.mpr hv, rfl⟩

/-- The record that well-formed tags spell. -/
def OutcomeRecord.ofEntries (l : List (List Char × List Char)) (h : WellFormed l) : OutcomeRecord where
  fields k := (l.find? fun p => decide (p.1 = k.name)).map Prod.snd
  valid k value hk := by
    obtain ⟨p, hp, rfl⟩ := Option.map_eq_some_iff.mp hk
    obtain ⟨k', hk', hv⟩ := h.valid p (List.mem_of_find?_eq_some hp)
    have hname : p.1 = k.name := by simpa using List.find?_some hp
    cases name_injective (hk'.trans hname)
    exact hv
  typed := by
    obtain ⟨p, hp, hname⟩ := h.typed
    rw [Option.isSome_map, List.find?_isSome]
    exact ⟨p, hp, decide_eq_true hname⟩

theorem OutcomeRecord.ofEntries_fields {l : List (List Char × List Char)} (h : WellFormed l) {k : Key}
    {value : List Char} : (ofEntries l h).fields k = some value ↔ (k.name, value) ∈ l := by
  unfold ofEntries
  dsimp only
  constructor
  · intro hk
    obtain ⟨p, hp, rfl⟩ := Option.map_eq_some_iff.mp hk
    have hname : p.1 = k.name := by simpa using List.find?_some hp
    rw [← hname]
    exact List.mem_of_find?_eq_some hp
  · intro hmem
    have hsome : (l.find? fun p => decide (p.1 = k.name)).isSome :=
      List.find?_isSome.mpr ⟨(k.name, value), hmem, decide_eq_true rfl⟩
    obtain ⟨p, hp⟩ := Option.isSome_iff_exists.mp hsome
    have hname : p.1 = k.name := by simpa using List.find?_some hp
    have heq := List.inj_on_of_nodup_map h.nodup (List.mem_of_find?_eq_some hp) hmem hname
    rw [hp, heq]
    rfl

theorem OutcomeRecord.perm_ofEntries {l : List (List Char × List Char)} (h : WellFormed l) :
    l.Perm (ofEntries l h).entries := by
  have hwell := (ofEntries l h).wellFormed
  refine (List.perm_ext_iff_of_nodup h.nodup.of_map hwell.nodup.of_map).mpr fun p => ?_
  constructor
  · intro hp
    obtain ⟨k, hk, -⟩ := h.valid p hp
    rw [← Prod.eta p, ← hk, mem_entries, ofEntries_fields, hk]
    exact hp
  · intro hp
    obtain ⟨k, hk, -⟩ := hwell.valid p hp
    rw [← Prod.eta p, ← hk, mem_entries, ofEntries_fields, hk] at hp
    exact hp

theorem OutcomeRecord.ext {r r' : OutcomeRecord} (h : r.entries.Perm r'.entries) : r = r' := by
  obtain ⟨fields, _, _⟩ := r
  obtain ⟨fields', _, _⟩ := r'
  congr 1
  funext k
  exact Option.ext fun v => mem_entries.symm.trans (h.mem_iff.trans mem_entries)

/-- **The tags are accepted if and only if they spell an outcome, and then just one**, in whatever order. -/
theorem validateOutcomeTags_eq_ok (tags : List (List Char)) :
    validateOutcomeTags tags = .ok () ↔ ∃! r : OutcomeRecord, (structured tags).Perm r.entries := by
  rw [validateOutcomeTags_iff]
  constructor
  · exact fun h => ⟨.ofEntries _ h, OutcomeRecord.perm_ofEntries h, fun r hr =>
      OutcomeRecord.ext (hr.symm.trans (OutcomeRecord.perm_ofEntries h))⟩
  · rintro ⟨r, hr, -⟩
    exact r.wellFormed.perm hr.symm

example : validateOutcomeTags (["gate:3a", "urgent", "type:bugfix"].map String.toList) = .ok () := by decide

/-! ## What is refused -/

theorem validateTagKeyValue_error {k : Key} {value : List Char} {e : InvalidInput}
    (h : validateTagKeyValue k value = .error e) : e.field = "tags" := by
  cases k with
  | type | result | phase =>
    unfold validateTagKeyValue validateOneOf at h
    dsimp only at h
    split_ifs at h
    cases h
    rfl
  | gate | agent =>
    unfold validateTagKeyValue validateNonEmpty at h
    dsimp only at h
    split_ifs at h
    cases h
    rfl
  | wave =>
    unfold validateTagKeyValue at h
    dsimp only at h
    split_ifs at h
    cases h
    rfl

theorem validateLoop_error {tags : List (List Char)} {hasType : Bool} {seenKeys : List (List Char)} {e : InvalidInput}
    (h : validateLoop tags hasType seenKeys = .error e) : e.field = "tags" := by
  induction tags generalizing hasType seenKeys with
  | nil => cases h
  | cons tag tags ih =>
    unfold validateLoop at h
    split at h
    · exact ih h
    · split at h
      · cases h
        rfl
      · split_ifs at h
        · cases h
          rfl
        · split at h
          · next hcheck =>
            cases h
            exact validateTagKeyValue_error hcheck
          · exact ih h

/-- Every error names the field it is about. -/
theorem validateOutcomeTags_error {tags : List (List Char)} {e : InvalidInput}
    (h : validateOutcomeTags tags = .error e) : e.field = "tags" := by
  unfold validateOutcomeTags at h
  split at h
  · next hloop =>
    cases h
    exact validateLoop_error hloop
  · cases h
  · cases h
    rfl

end Unimatrix.OutcomeTags
