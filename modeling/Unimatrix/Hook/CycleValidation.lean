import Unimatrix.Hook.TopicSignal

/-!
# Cycle parameters

Model of `cycle-validation.js` and of `validate_cycle_params` of `validation.rs` it is a port of, with what the hooks
read of `tool_input` before they call them.

* A text is the list of its code points; `trim` of JavaScript and of Rust cut off `isJsWhitespace` and
  `isRustWhitespace`.
* Both languages lower-case by the Unicode tables of their version. A `LowercaseTable` is any that is right on ASCII
  and on the kelvin sign, the one other character whose lower case is in ASCII; the rest of a word may matter to the
  lower case of a character (the final sigma).
* A validator of JavaScript gives no reason. The errors of the Rust one have the texts of the source.

Both accept a phase only where it is a name (`isName`) once all whitespace of either language is cut off, and then
return that name in lower case (`Js.validatePhaseField_eq`, `Rust.validatePhaseField_eq`). They part over the two
characters that only one of them cuts off: **`cycleValidation_parity`** says exactly when.
-/

namespace Unimatrix.CycleValidation

open Words TopicSignal

/-- `MAX_CYCLE_TOPIC_LEN`. -/
def maxCycleTopicLen : Nat := 128

/-- `MAX_PHASE_LEN`. -/
def maxPhaseLen : Nat := 64

/-- `MAX_OUTCOME_LEN`. -/
def maxOutcomeLen : Nat := 512

/-! ## Lower case -/

/-- U+212A, whose lower case is the letter k. -/
def kelvinSign : Char := '\u212A'

/-- The lower case of a character between what comes before it and what comes after. -/
structure LowercaseTable where
  lower : List Char → Char → List Char → List Char
  ascii : ∀ before c after, c.toNat < 128 → lower before c after = [c.toLower]
  kelvin : ∀ before after, lower before kelvinSign after = ['k']
  foreign : ∀ before c after, 128 ≤ c.toNat → c ≠ kelvinSign → ∃ d ∈ lower before c after, 128 ≤ d.toNat

namespace LowercaseTable

variable (t : LowercaseTable)

def lowerFrom (before : List Char) : List Char → List Char
  | [] => []
  | c :: after => t.lower before c after ++ lowerFrom (before ++ [c]) after

/-- `toLowerCase`, `to_lowercase`. -/
def toLowercase (s : List Char) : List Char := t.lowerFrom [] s

end LowercaseTable

/-! ## The validators -/

/-- `ValidatedCycleParams`, and the fields of what the port returns. -/
structure ValidatedCycleParams (T : Type) where
  cycleType : T
  topic : List Char
  phase : Option (List Char)
  outcome : Option (List Char)
  nextPhase : Option (List Char)
  deriving DecidableEq

namespace Js

/-- `[a-z0-9\-_]`. -/
def isPhaseChar (c : Char) : Bool := c.isLower || c.isDigit || c == '-' || c == '_'

/-- `validatePhaseField`. -/
def validatePhaseField (t : LowercaseTable) : Option (List Char) → Option (Option (List Char))
  | none => some none
  | some value =>
    let trimmed := trim isJsWhitespace value
    if trimmed.isEmpty then none
    else
      let normalized := t.toLowercase trimmed
      if maxPhaseLen < normalized.length then none
      else if normalized.contains ' ' then none
      else if normalized.isEmpty || !normalized.all isPhaseChar then none
      else some (some normalized)

/-- What `validateCycleParams` keeps of a topic. -/
def clean (topic : List Char) : List Char :=
  (topic.filter fun ch =>
    decide (ch.toNat ≤ 0x7F) && !(decide (ch.toNat ≤ 0x1F) || ch.toNat == 0x7F)).take maxCycleTopicLen

/-- What `validateCycleParams` makes of an outcome. -/
def validateOutcome : Option (List Char) → Option (Option (List Char))
  | none => some none
  | some outcome =>
    if maxOutcomeLen < outcome.length then none
    else if outcome.any fun ch => decide (ch.toNat ≤ 0x1F) then none
    else some (some outcome)

/-- `validateCycleParams`. -/
def validateCycleParams (t : LowercaseTable) (typeStr topic : List Char)
    (phase outcome nextPhase : Option (List Char)) : Option (ValidatedCycleParams (List Char)) :=
  if typeStr != "start".toList && typeStr != "phase-end".toList && typeStr != "stop".toList then none
  else if topic.isEmpty then none
  else if (clean topic).isEmpty || !isValidFeatureId (clean topic) then none
  else
    (validatePhaseField t phase).bind fun phase =>
      (validatePhaseField t nextPhase).bind fun nextPhase =>
        (validateOutcome outcome).map fun outcome => ⟨typeStr, clean topic, phase, outcome, nextPhase⟩

end Js

/-- `CycleType`. -/
inductive CycleType where
  | start
  | phaseEnd
  | stop
  deriving DecidableEq, Repr

/-- The name of a type on the wire. -/
def CycleType.name : CycleType → List Char
  | start => "start".toList
  | phaseEnd => "phase-end".toList
  | stop => "stop".toList

namespace Rust

/-- `is_ascii`. -/
def isAscii (c : Char) : Bool := decide (c.toNat < 128)

/-- `is_ascii_control`. -/
def isAsciiControl (c : Char) : Bool := decide (c.toNat < 0x20) || c.toNat == 0x7F

/-- The `match` on `type_str`. -/
def cycleType (typeStr : List Char) : Except String CycleType :=
  if typeStr = "start".toList then .ok .start
  else if typeStr = "phase-end".toList then .ok .phaseEnd
  else if typeStr = "stop".toList then .ok .stop
  else .error ("invalid type '" ++ String.ofList typeStr ++ "': must be 'start', 'phase-end', or 'stop'")

/-- `validate_phase_field`. -/
def validatePhaseField (t : LowercaseTable) (fieldName : String) :
    Option (List Char) → Except String (Option (List Char))
  | none => .ok none
  | some s =>
    let trimmed := trim isRustWhitespace s
    if trimmed.isEmpty then .error (fieldName ++ " must not be empty when provided")
    else
      let normalized := t.toLowercase trimmed
      if maxPhaseLen < normalized.length then .error (fieldName ++ " exceeds 64 characters")
      else if normalized.contains ' ' then .error (fieldName ++ " must not contain spaces")
      else if !normalized.all fun c => c.isAlphanum || c == '-' || c == '_' then
        .error (fieldName ++ " must contain only ASCII letters, digits, hyphens, and underscores")
      else .ok (some normalized)

/-- `clean_topic`. -/
def cleanTopic (topic : List Char) : List Char :=
  (topic.filter fun c => isAscii c && !isAsciiControl c).take maxCycleTopicLen

/-- `validated_outcome`. -/
def validateOutcome : Option (List Char) → Except String (Option (List Char))
  | none => .ok none
  | some s =>
    if maxOutcomeLen < s.length then .error "outcome exceeds 512 characters"
    else if s.any fun c => decide (c.toNat ≤ 0x1F) then .error "outcome contains control characters"
    else .ok (some s)

/-- The checks of the topic. -/
def validateTopic (topic : List Char) : Except String (List Char) :=
  if topic.isEmpty then .error "topic must not be empty"
  else if (cleanTopic topic).isEmpty then .error "topic contains only invalid characters"
  else if !isValidFeatureId (cleanTopic topic) then
    .error "topic is not a valid feature cycle identifier"
  else .ok (cleanTopic topic)

/-- `validate_cycle_params`. -/
def validateCycleParams (t : LowercaseTable) (typeStr topic : List Char)
    (phase outcome nextPhase : Option (List Char)) :
    Except String (ValidatedCycleParams CycleType) := do
  let cycleType ← cycleType typeStr
  let topic ← validateTopic topic
  let phase ← validatePhaseField t "phase" phase
  let nextPhase ← validatePhaseField t "next_phase" nextPhase
  let outcome ← validateOutcome outcome
  return ⟨cycleType, topic, phase, outcome, nextPhase⟩

end Rust

/-! ## What the hooks read -/

/-- A field of `tool_input`, as far as the hooks look at it. -/
inductive Field where
  | string (s : List Char)
  | other
  deriving DecidableEq

/-- `tool_input`, an object. -/
structure ToolInput where
  type : Option Field
  topic : Option Field
  phase : Option Field
  outcome : Option Field
  nextPhase : Option Field
  deriving DecidableEq

/-- `strOrUndef`, `as_str`. -/
def asStr : Option Field → Option (List Char)
  | some (.string s) => some s
  | _ => none

/-- `buildCycleEventOrFallthrough`, up to the validation. -/
def Js.validate (t : LowercaseTable) (i : ToolInput) : Option (ValidatedCycleParams (List Char)) :=
  validateCycleParams t ((asStr i.type).getD []) ((asStr i.topic).getD []) (asStr i.phase) (asStr i.outcome)
    (asStr i.nextPhase)

/-- `build_cycle_event_or_fallthrough`, up to the validation. -/
def Rust.validate (t : LowercaseTable) (i : ToolInput) :
    Except String (ValidatedCycleParams CycleType) :=
  validateCycleParams t ((asStr i.type).getD []) ((asStr i.topic).getD []) (asStr i.phase) (asStr i.outcome)
    (asStr i.nextPhase)

/-! ## Lower case of a name -/

/-- The lower case of ASCII and of the kelvin sign. -/
def fold (c : Char) : Char := if c = kelvinSign then 'k' else c.toLower

/-- The letters, digits and signs of a phase, and the character that becomes one. -/
def isNameChar (c : Char) : Bool := c.isAlphanum || c == '-' || c == '_' || c == kelvinSign

/-- What is left of a phase can be its name. -/
def isName (s : List Char) : Bool :=
  !s.isEmpty && decide (s.length ≤ maxPhaseLen) && s.all isNameChar

theorem of_ascii {P : Char → Prop} (h : ∀ n < 128, P (Char.ofNat n)) {c : Char}
    (hc : c.toNat < 128) : P c := by
  have hn := h c.toNat hc
  rwa [Char.ofNat_toNat] at hn

theorem isNameChar_lt {c : Char} (h : isNameChar c) : c.toNat < 128 ∨ c = kelvinSign := by
  unfold isNameChar at h
  simp only [Bool.or_eq_true, beq_iff_eq] at h
  rcases h with ((h | rfl) | rfl) | h
  · exact .inl (isAlphanum_lt h)
  · exact .inl (by decide)
  · exact .inl (by decide)
  · exact .inr h

namespace LowercaseTable

variable (t : LowercaseTable)

/-- Within ASCII, and for the kelvin sign, a table has no choice. -/
theorem lowerFrom_eq {s : List Char} (h : ∀ c ∈ s, c.toNat < 128 ∨ c = kelvinSign)
    (before : List Char) : t.lowerFrom before s = s.map fold := by
  induction s generalizing before with
  | nil => rfl
  | cons c s ih =>
    obtain ⟨hc, hs⟩ := List.forall_mem_cons.mp h
    have hlower : t.lower before c s = [fold c] := by
      unfold fold
      by_cases hk : c = kelvinSign
      · rw [if_pos hk, hk, t.kelvin]
      · rw [if_neg hk, t.ascii before c s (hc.resolve_right hk)]
    unfold lowerFrom
    rw [hlower, ih hs]
    rfl

/-- Any other character leaves a trace outside ASCII. -/
theorem lowerFrom_foreign {s : List Char} {c : Char} (hc : c ∈ s) (hge : 128 ≤ c.toNat)
    (hne : c ≠ kelvinSign) (before : List Char) : ∃ d ∈ t.lowerFrom before s, 128 ≤ d.toNat := by
  induction s generalizing before with
  | nil => cases hc
  | cons x s ih =>
    unfold lowerFrom
    rcases List.mem_cons.mp hc with rfl | hc
    · obtain ⟨d, hd, hd'⟩ := t.foreign before c s hge hne
      exact ⟨d, List.mem_append_left _ hd, hd'⟩
    · obtain ⟨d, hd, hd'⟩ := ih hc (before ++ [x])
      exact ⟨d, List.mem_append_right _ hd, hd'⟩

/-- **What passes the checks of a phase is a name in lower case.** `p` is the class of characters that is checked. -/
theorem passes_iff {p : Char → Bool} (hlt : ∀ c, p c → c.toNat < 128)
    (hfold : ∀ c, c.toNat < 128 ∨ c = kelvinSign → p (fold c) = isNameChar c) (s : List Char) :
    (s.isEmpty = false ∧ (t.toLowercase s).length ≤ maxPhaseLen ∧ (t.toLowercase s).all p = true) ↔
      isName s = true := by
  unfold isName toLowercase
  simp only [Bool.and_eq_true, Bool.not_eq_true', decide_eq_true_eq, List.all_eq_true]
  constructor
  · rintro ⟨hne, hlen, hall⟩
    have hs : ∀ c ∈ s, c.toNat < 128 ∨ c = kelvinSign := by
      intro c hc
      by_contra hcon
      rw [not_or, not_lt] at hcon
      obtain ⟨d, hd, hge⟩ := t.lowerFrom_foreign hc hcon.1 hcon.2 []
      exact absurd (hlt d (hall d hd)) (not_lt.mpr hge)
    rw [t.lowerFrom_eq hs] at hlen hall
    rw [List.length_map] at hlen
    refine ⟨⟨hne, hlen⟩, fun c hc => ?_⟩
    rw [← hfold c (hs c hc)]
    exact hall (fold c) (List.mem_map_of_mem hc)
  · rintro ⟨⟨hne, hlen⟩, hall⟩
    have hs : ∀ c ∈ s, c.toNat < 128 ∨ c = kelvinSign := fun c hc => isNameChar_lt (hall c hc)
    rw [t.lowerFrom_eq hs]
    refine ⟨hne, by rwa [List.length_map], fun d hd => ?_⟩
    obtain ⟨c, hc, rfl⟩ := List.mem_map.mp hd
    rw [hfold c (hs c hc)]
    exact hall c hc

theorem toLowercase_of_isName {s : List Char} (h : isName s = true) :
    t.toLowercase s = s.map fold := by
  unfold isName at h
  simp only [Bool.and_eq_true, List.all_eq_true] at h
  exact t.lowerFrom_eq (fun c hc => isNameChar_lt (h.2 c hc)) []

end LowercaseTable

/-! ## Trimming -/

/-- What either language cuts off. -/
def isWhitespace (c : Char) : Bool := isJsWhitespace c || isRustWhitespace c

/-- A phase without the whitespace of either language around it. -/
def core (s : List Char) : List Char := trim isWhitespace s

theorem isWhitespace_of_isNameChar {c : Char} (h : isNameChar c) : isWhitespace c = false := by
  rcases isNameChar_lt h with hlt | rfl
  · refine of_ascii (P := fun c => isNameChar c → isWhitespace c = false) ?_ hlt h
    decide +kernel
  · decide

/-- **Cutting off some of the whitespace leaves a name exactly where cutting off all of it does, and none of the
rest is there.** -/
theorem isName_trim_iff {p : Char → Bool} (hp : ∀ c, p c → isWhitespace c) (s : List Char) :
    isName (trim p s) = true ↔ isName (core s) = true ∧ ∀ c ∈ s, isWhitespace c → p c := by
  constructor
  · intro h
    obtain ⟨a, b, hs, ha, hb⟩ := exists_trim p s
    have hchars : ∀ c ∈ trim p s, isWhitespace c = false := by
      intro c hc
      unfold isName at h
      simp only [Bool.and_eq_true, List.all_eq_true] at h
      exact isWhitespace_of_isNameChar (h.2 c hc)
    have hcore : core s = trim p s := by
      unfold core
      conv_lhs => rw [hs]
      rw [trim_append (fun c hc => hp c (ha c hc)) (fun c hc => hp c (hb c hc)), trim_eq_self hchars]
    rw [hcore]
    refine ⟨h, fun c hc hw => ?_⟩
    rw [hs, List.mem_append, List.mem_append] at hc
    rcases hc with (hc | hc) | hc
    · exact ha c hc
    · rw [hchars c hc] at hw
      cases hw
    · exact hb c hc
  · rintro ⟨h, hall⟩
    have htrim : trim p s = core s :=
      trim_congr fun c hc => Bool.eq_iff_iff.mpr ⟨hp c, hall c hc⟩
    rwa [htrim]

theorem core_eq_trim {p : Char → Bool} (hp : ∀ c, p c → isWhitespace c) {s : List Char}
    (h : isName (trim p s) = true) : trim p s = core s :=
  trim_congr fun c hc => Bool.eq_iff_iff.mpr ⟨hp c, ((isName_trim_iff hp s).mp h).2 c hc⟩

/-- U+0085, which only Rust cuts off. -/
def nextLine : Char := '\u0085'

/-- U+FEFF, which only JavaScript cuts off. -/
def byteOrderMark : Char := '\uFEFF'

theorem isJsWhitespace_iff (c : Char) : (isWhitespace c → isJsWhitespace c) ↔ c ≠ nextLine := by
  constructor
  · rintro h rfl
    exact absurd (h (by decide)) (by decide)
  · intro hne hw
    have hcode : c.toNat ≠ 0x85 := fun h => hne (Char.toNat_inj.mp h)
    unfold isWhitespace isRustWhitespace at hw
    unfold isJsWhitespace at hw ⊢
    simp only [Bool.or_eq_true, beq_iff_eq] at hw ⊢
    tauto

theorem isRustWhitespace_iff (c : Char) : (isWhitespace c → isRustWhitespace c) ↔ c ≠ byteOrderMark := by
  constructor
  · rintro h rfl
    exact absurd (h (by decide)) (by decide)
  · intro hne hw
    have hcode : c.toNat ≠ 0xFEFF := fun h => hne (Char.toNat_inj.mp h)
    unfold isWhitespace isJsWhitespace at hw
    unfold isRustWhitespace at hw ⊢
    simp only [Bool.or_eq_true, beq_iff_eq] at hw ⊢
    tauto

/-! ## A phase -/

theorem isPhaseChar_lt (c : Char) (h : Js.isPhaseChar c) : c.toNat < 128 := by
  unfold Js.isPhaseChar at h
  simp only [Bool.or_eq_true, beq_iff_eq] at h
  rcases h with ((h | h) | rfl) | rfl
  · refine isAlphanum_lt ?_
    unfold Char.isAlphanum Char.isAlpha
    simp [h]
  · refine isAlphanum_lt ?_
    unfold Char.isAlphanum
    simp [h]
  · decide
  · decide

theorem isPhaseChar_fold (c : Char) (h : c.toNat < 128 ∨ c = kelvinSign) :
    Js.isPhaseChar (fold c) = isNameChar c := by
  rcases h with hlt | rfl
  · refine of_ascii (P := fun c => Js.isPhaseChar (fold c) = isNameChar c) ?_ hlt
    decide +kernel
  · decide

/-- The class of `validate_phase_field`. -/
def isRustPhaseChar (c : Char) : Bool := c.isAlphanum || c == '-' || c == '_'

theorem isRustPhaseChar_lt (c : Char) (h : isRustPhaseChar c) : c.toNat < 128 := by
  unfold isRustPhaseChar at h
  simp only [Bool.or_eq_true, beq_iff_eq] at h
  rcases h with (h | rfl) | rfl
  · exact isAlphanum_lt h
  · decide
  · decide

theorem isRustPhaseChar_fold (c : Char) (h : c.toNat < 128 ∨ c = kelvinSign) :
    isRustPhaseChar (fold c) = isNameChar c := by
  rcases h with hlt | rfl
  · refine of_ascii (P := fun c => isRustPhaseChar (fold c) = isNameChar c) ?_ hlt
    decide +kernel
  · decide

/-- What both validators make of a phase they accept. -/
def phaseName (s : List Char) : List Char := (core s).map fold

/-- A name is accepted where the language cuts off all the whitespace that stands around it. -/
theorem accepted_iff {p : Char → Bool} {odd : Char} (hp : ∀ c, p c → isWhitespace c)
    (hodd : ∀ c, (isWhitespace c → p c) ↔ c ≠ odd) (s : List Char) :
    isName (trim p s) = (isName (core s) && !s.contains odd) := by
  rw [Bool.eq_iff_iff, isName_trim_iff hp, Bool.and_eq_true, Bool.not_eq_true', List.contains_eq_mem,
    decide_eq_false_iff_not]
  refine and_congr_right fun _ => ⟨fun h hc => (hodd odd).mp (h odd hc) rfl, fun h c hc => ?_⟩
  exact (hodd c).mpr fun heq => h (heq ▸ hc)

theorem contains_space {p : Char → Bool} (hp : p ' ' = false) {s : List Char} (h : s.all p = true) :
    s.contains ' ' = false := by
  rw [List.contains_eq_mem, decide_eq_false_iff_not]
  intro hmem
  rw [List.all_eq_true.mp h ' ' hmem] at hp
  cases hp

theorem Js.validatePhaseField_eq (t : LowercaseTable) (o : Option (List Char)) :
    Js.validatePhaseField t o =
      if o.all fun s => isName (core s) && !s.contains nextLine then some (o.map phaseName) else none := by
  cases o with
  | none => rfl
  | some s =>
    have hp : ∀ c, isJsWhitespace c → isWhitespace c := fun c hc => by simp [isWhitespace, hc]
    have hpass := t.passes_iff isPhaseChar_lt isPhaseChar_fold (trim isJsWhitespace s)
    rw [Option.all_some, ← accepted_iff hp isJsWhitespace_iff]
    unfold Js.validatePhaseField
    by_cases h : isName (trim isJsWhitespace s) = true
    · obtain ⟨hne, hlen, hall⟩ := hpass.mpr h
      have hlower := t.toLowercase_of_isName h
      have hname : (t.toLowercase (trim isJsWhitespace s)).isEmpty = false := by
        rw [hlower]
        simpa using hne
      simp only [hne, hname, hall, contains_space (by decide) hall, not_lt.mpr hlen, h, Bool.false_eq_true,
        Bool.not_true, Bool.or_false, if_false, if_true, Option.map_some]
      rw [hlower, core_eq_trim hp h]
      rfl
    · rw [if_neg h]
      dsimp only
      split_ifs with hne hlen hspace hall
      · rfl
      · rfl
      · rfl
      · rfl
      · simp only [Bool.or_eq_true, Bool.not_eq_true', not_or, Bool.not_eq_false] at hall
        exact absurd (hpass.mp ⟨Bool.eq_false_iff.mpr hne, not_lt.mp hlen, hall.2⟩) h

theorem Rust.validatePhaseField_eq (t : LowercaseTable) (fieldName : String) (o : Option (List Char)) :
    (Rust.validatePhaseField t fieldName o).toOption =
      if o.all fun s => isName (core s) && !s.contains byteOrderMark then some (o.map phaseName)
      else none := by
  cases o with
  | none => rfl
  | some s =>
    have hp : ∀ c, isRustWhitespace c → isWhitespace c := fun c hc => by simp [isWhitespace, hc]
    have hpass := t.passes_iff isRustPhaseChar_lt isRustPhaseChar_fold (trim isRustWhitespace s)
    rw [Option.all_some, ← accepted_iff hp isRustWhitespace_iff]
    unfold Rust.validatePhaseField
    by_cases h : isName (trim isRustWhitespace s) = true
    · obtain ⟨hne, hlen, hall⟩ := hpass.mpr h
      have hlower := t.toLowercase_of_isName h
      unfold isRustPhaseChar at hall
      simp only [hne, hall, contains_space (by decide) hall, not_lt.mpr hlen, h, Bool.false_eq_true,
        Bool.not_true, if_false, if_true, Option.map_some]
      rw [hlower, core_eq_trim hp h]
      rfl
    · rw [if_neg h]
      dsimp only
      split_ifs with hne hlen hspace hall
      · rfl
      · rfl
      · rfl
      · rfl
      · rw [Bool.not_eq_true, Bool.not_eq_false'] at hall
        exact absurd (hpass.mp ⟨Bool.eq_false_iff.mpr hne, not_lt.mp hlen, hall⟩) h

/-! ## Parity -/

/-- `typeStr` names a type. -/
def isType (typeStr : List Char) : Bool :=
  [CycleType.start, .phaseEnd, .stop].any fun type => type.name == typeStr

/-- The outcome is short enough and holds no control characters. -/
def isOutcome (s : List Char) : Bool :=
  decide (s.length ≤ maxOutcomeLen) && s.all fun c => decide (0x1F < c.toNat)

/-- What both validators ask of the fields, whatever they cut off of a phase. -/
def wellFormed (i : ToolInput) : Bool :=
  isType ((asStr i.type).getD []) && isValidFeatureId (Rust.cleanTopic ((asStr i.topic).getD [])) &&
    (asStr i.outcome).all isOutcome && (asStr i.phase).all (isName <| core ·) &&
    (asStr i.nextPhase).all (isName <| core ·)

/-- The character stands in one of the phases. -/
def mentions (c : Char) (i : ToolInput) : Bool :=
  (asStr i.phase).any (·.contains c) || (asStr i.nextPhase).any (·.contains c)

/-- What a validator makes of fields it accepts. -/
def normalised {T : Type} (type : T) (i : ToolInput) : ValidatedCycleParams T where
  cycleType := type
  topic := Rust.cleanTopic ((asStr i.topic).getD [])
  phase := (asStr i.phase).map phaseName
  outcome := asStr i.outcome
  nextPhase := (asStr i.nextPhase).map phaseName

/-- The type as it stands on the wire. -/
def ValidatedCycleParams.named (p : ValidatedCycleParams CycleType) : ValidatedCycleParams (List Char) where
  cycleType := p.cycleType.name
  topic := p.topic
  phase := p.phase
  outcome := p.outcome
  nextPhase := p.nextPhase

theorem clean_eq (topic : List Char) : Js.clean topic = Rust.cleanTopic topic := by
  have hclass : ∀ ch : Char,
      (decide (ch.toNat ≤ 0x7F) && !(decide (ch.toNat ≤ 0x1F) || ch.toNat == 0x7F)) =
        (Rust.isAscii ch && !Rust.isAsciiControl ch) := by
    intro ch
    unfold Rust.isAscii Rust.isAsciiControl
    simp only [Nat.lt_succ_iff]
  unfold Js.clean Rust.cleanTopic
  simp only [hclass]

theorem Js.isType_eq (typeStr : List Char) :
    (typeStr != "start".toList && typeStr != "phase-end".toList && typeStr != "stop".toList) =
      !isType typeStr := by
  unfold isType CycleType.name
  simp only [List.any_cons, List.any_nil, Bool.or_false, Bool.not_or, bne, Bool.and_assoc,
    Bool.beq_comm (a := typeStr)]

theorem isType_iff {typeStr : List Char} : isType typeStr = true ↔ ∃ type, CycleType.name type = typeStr := by
  unfold isType
  simp only [List.any_eq_true, beq_iff_eq]
  constructor
  · rintro ⟨type, -, h⟩
    exact ⟨type, h⟩
  · rintro ⟨type, h⟩
    exact ⟨type, by cases type <;> simp, h⟩

theorem Rust.cycleType_eq (typeStr : List Char) :
    (Rust.cycleType typeStr).toOption.map CycleType.name = if isType typeStr then some typeStr else none := by
  have hname : ∀ type, typeStr = CycleType.name type →
      some (CycleType.name type) = if isType typeStr then some typeStr else none := by
    rintro type rfl
    rw [if_pos (isType_iff.mpr ⟨type, rfl⟩)]
  unfold Rust.cycleType
  split
  · rename_i h
    exact hname .start h
  split
  · rename_i h
    exact hname .phaseEnd h
  split
  · rename_i h
    exact hname .stop h
  · rename_i hstart hphase hstop
    rw [if_neg]
    · rfl
    · intro h
      obtain ⟨type, rfl⟩ := isType_iff.mp h
      cases type
      · exact hstart rfl
      · exact hphase rfl
      · exact hstop rfl

/-- The checks of an outcome. -/
theorem isOutcome_iff {s : List Char} : isOutcome s = true ↔
    ¬ maxOutcomeLen < s.length ∧ ¬ (s.any fun c => decide (c.toNat ≤ 0x1F)) = true := by
  unfold isOutcome
  simp only [Bool.and_eq_true, decide_eq_true_eq, not_lt, List.all_eq_true, List.any_eq_true, not_exists,
    not_and, not_le]

theorem Js.validateOutcome_eq (o : Option (List Char)) :
    Js.validateOutcome o = if o.all isOutcome then some o else none := by
  cases o with
  | none => rfl
  | some s =>
    unfold Js.validateOutcome
    dsimp only
    rw [Option.all_some]
    by_cases h : isOutcome s = true
    · obtain ⟨hlen, hctrl⟩ := isOutcome_iff.mp h
      rw [if_neg hlen, if_neg hctrl, if_pos h]
    · rw [if_neg h]
      split_ifs with hlen hctrl
      · rfl
      · rfl
      · exact absurd (isOutcome_iff.mpr ⟨hlen, hctrl⟩) h

theorem Rust.validateOutcome_eq (o : Option (List Char)) :
    (Rust.validateOutcome o).toOption = if o.all isOutcome then some o else none := by
  cases o with
  | none => rfl
  | some s =>
    unfold Rust.validateOutcome
    dsimp only
    rw [Option.all_some]
    by_cases h : isOutcome s = true
    · obtain ⟨hlen, hctrl⟩ := isOutcome_iff.mp h
      rw [if_neg hlen, if_neg hctrl, if_pos h]
      rfl
    · rw [if_neg h]
      split_ifs with hlen hctrl
      · rfl
      · rfl
      · exact absurd (isOutcome_iff.mpr ⟨hlen, hctrl⟩) h

/-- A valid id is not empty, so the earlier checks of a topic add nothing. -/
theorem ne_nil_of_isValidFeatureId {s : List Char} (h : isValidFeatureId s = true) : s.isEmpty = false := by
  unfold isValidFeatureId at h
  simp only [Bool.and_eq_true, Bool.not_eq_true'] at h
  exact h.1.1.1.1.1

theorem Rust.validateTopic_eq (topic : List Char) :
    (Rust.validateTopic topic).toOption =
      if isValidFeatureId (cleanTopic topic) then some (cleanTopic topic) else none := by
  unfold Rust.validateTopic
  by_cases h : isValidFeatureId (cleanTopic topic) = true
  · have hclean := ne_nil_of_isValidFeatureId h
    have htopic : topic.isEmpty = false := by
      cases topic with
      | nil => cases hclean
      | cons c topic => rfl
    simp [h, hclean, htopic, Except.toOption]
  · rw [if_neg h]
    split_ifs with h1 h2 h3
    · rfl
    · rfl
    · rfl
    · rw [Bool.not_eq_true, Bool.not_eq_false'] at h3
      exact absurd h3 h

/-- The two phases are names, and neither holds the character. -/
theorem phases_ok (odd : Char) (i : ToolInput) :
    (((asStr i.phase).all fun s => isName (core s) && !s.contains odd) = true ∧
        ((asStr i.nextPhase).all fun s => isName (core s) && !s.contains odd) = true) ↔
      ((asStr i.phase).all (isName <| core ·) = true ∧ (asStr i.nextPhase).all (isName <| core ·) = true) ∧
        mentions odd i = false := by
  unfold mentions
  cases asStr i.phase <;> cases asStr i.nextPhase <;>
    simp only [Option.all_none, Option.all_some, Option.any_none, Option.any_some, Bool.and_eq_true,
      Bool.or_eq_false_iff, Bool.not_eq_true'] <;> tauto

/-- The checks of a validator one after the other, where `odd` is what it does not cut off of a phase. -/
def checked (odd : Char) (i : ToolInput) : Option (ValidatedCycleParams (List Char)) :=
  let typeStr := (asStr i.type).getD []
  let topic := Rust.cleanTopic ((asStr i.topic).getD [])
  let isPhase := fun s => isName (core s) && !s.contains odd
  (if isType typeStr then some typeStr else none).bind fun type =>
    (if isValidFeatureId topic then some topic else none).bind fun topic =>
      (if (asStr i.phase).all isPhase then some ((asStr i.phase).map phaseName) else none).bind fun phase =>
        (if (asStr i.nextPhase).all isPhase then some ((asStr i.nextPhase).map phaseName) else none).bind
          fun nextPhase =>
            (if (asStr i.outcome).all isOutcome then some (asStr i.outcome) else none).map fun outcome =>
              ⟨type, topic, phase, outcome, nextPhase⟩

theorem checked_eq (odd : Char) (i : ToolInput) :
    checked odd i =
      if wellFormed i && !mentions odd i then some (normalised ((asStr i.type).getD []) i) else none := by
  have hphases := phases_ok odd i
  have hall : (wellFormed i && !mentions odd i) = true ↔
      isType ((asStr i.type).getD []) = true ∧
        isValidFeatureId (Rust.cleanTopic ((asStr i.topic).getD [])) = true ∧
          ((asStr i.phase).all fun s => isName (core s) && !s.contains odd) = true ∧
            ((asStr i.nextPhase).all fun s => isName (core s) && !s.contains odd) = true ∧
              (asStr i.outcome).all isOutcome = true := by
    unfold wellFormed
    simp only [Bool.and_eq_true, Bool.not_eq_true']
    tauto
  unfold checked
  dsimp only
  by_cases h : (wellFormed i && !mentions odd i) = true
  · obtain ⟨htype, htopic, hphase, hnext, houtcome⟩ := hall.mp h
    simp only [h, htype, htopic, hphase, hnext, houtcome, if_true, Option.bind_some, Option.map_some]
    rfl
  · rw [if_neg h]
    by_contra hsome
    refine h (hall.mpr ?_)
    split_ifs at hsome with htype htopic hphase hnext houtcome
    · exact ⟨htype, htopic, hphase, hnext, houtcome⟩
    all_goals exact absurd rfl hsome

/-- **What the port accepts, and returns.** -/
theorem Js.validate_eq (t : LowercaseTable) (i : ToolInput) :
    Js.validate t i =
      if wellFormed i && !mentions nextLine i then some (normalised ((asStr i.type).getD []) i) else none := by
  rw [← checked_eq]
  unfold Js.validate Js.validateCycleParams checked
  rw [Js.isType_eq, clean_eq, Js.validatePhaseField_eq, Js.validatePhaseField_eq, Js.validateOutcome_eq]
  dsimp only
  by_cases htype : isType ((asStr i.type).getD []) = true
  · by_cases htopic : isValidFeatureId (Rust.cleanTopic ((asStr i.topic).getD [])) = true
    · have hclean := ne_nil_of_isValidFeatureId htopic
      have hne : ((asStr i.topic).getD []).isEmpty = false := by
        cases heq : (asStr i.topic).getD [] with
        | nil =>
          rw [heq] at hclean
          cases hclean
        | cons c topic => rfl
      simp only [htype, htopic, hclean, hne, Bool.not_true, Bool.or_false, Bool.false_eq_true, if_false, if_true,
        Option.bind_some]
    · simp [htype, htopic]
  · simp [htype]

theorem toOption_bind {α β : Type} (x : Except String α) (f : α → Except String β) :
    (x >>= f).toOption = x.toOption.bind fun a => (f a).toOption := by
  cases x <;> rfl

/-- **What the validator accepts, and returns.** -/
theorem Rust.validate_eq (t : LowercaseTable) (i : ToolInput) :
    (Rust.validate t i).toOption.map ValidatedCycleParams.named =
      if wellFormed i && !mentions byteOrderMark i then some (normalised ((asStr i.type).getD []) i)
      else none := by
  rw [← checked_eq]
  unfold Rust.validate Rust.validateCycleParams checked
  dsimp only
  rw [← Rust.cycleType_eq]
  simp only [toOption_bind, Rust.validateTopic_eq, Rust.validatePhaseField_eq, Rust.validateOutcome_eq,
    Option.map_bind, Option.bind_map, Function.comp_def]
  by_cases houtcome : (asStr i.outcome).all isOutcome = true
  · simp only [houtcome, if_true]
    rfl
  · simp only [houtcome]
    rfl

/-- The claim of parity: both accept, or neither does, and what they return is the same. -/
def SameVerdict (js rust : LowercaseTable) (i : ToolInput) : Prop :=
  ((Js.validate js i).isSome = true ↔ (Rust.validate rust i).isOk = true) ∧
    ∀ a b, Js.validate js i = some a → Rust.validate rust i = .ok b → a = b.named

/-- Where nothing else is wrong, U+0085 stands in a phase iff U+FEFF does. -/
def TrimmedAlike (i : ToolInput) : Prop :=
  wellFormed i = true → (mentions nextLine i = true ↔ mentions byteOrderMark i = true)

/-- **The two validators give the same verdict exactly where they trim alike**: unless something else is wrong with
the fields, a phase or a next phase holds U+0085 iff one of them holds U+FEFF. -/
theorem cycleValidation_parity (js rust : LowercaseTable) (i : ToolInput) :
    SameVerdict js rust i ↔ TrimmedAlike i := by
  have hjs := Js.validate_eq js i
  have hrust := Rust.validate_eq rust i
  have haccept : (Rust.validate rust i).isOk =
      ((Rust.validate rust i).toOption.map ValidatedCycleParams.named).isSome := by
    cases Rust.validate rust i <;> rfl
  have hsame : ∀ a b, Js.validate js i = some a → Rust.validate rust i = .ok b → a = b.named := by
    intro a b ha hb
    rw [hb] at hrust
    rw [ha] at hjs
    split_ifs at hjs hrust
    · exact (Option.some.inj hjs).trans (Option.some.inj hrust).symm
    · cases hrust
  unfold SameVerdict TrimmedAlike
  rw [and_iff_left hsame, haccept, hjs, hrust]
  cases wellFormed i <;> cases mentions nextLine i <;> cases mentions byteOrderMark i <;> simp

/-- A table that knows ASCII and the kelvin sign. -/
def asciiLowercase : LowercaseTable where
  lower _ c _ := [fold c]
  ascii _ c _ h := by
    have hne : c ≠ kelvinSign := by
      rintro rfl
      exact absurd h (by decide)
    rw [fold, if_neg hne]
  kelvin _ _ := rfl
  foreign _ c _ h hne := by
    refine ⟨fold c, List.mem_singleton_self _, ?_⟩
    rw [fold, if_neg hne]
    unfold Char.toLower
    split_ifs with hupper
    · have hle : c.toNat ≤ 90 := UInt32.le_iff_toNat_le.mp hupper.2
      exact absurd h (by omega)
    · exact h

/-- A call that names its phase behind a byte order mark. -/
def markedPhase : ToolInput where
  type := some (.string "start".toList)
  topic := some (.string "col-022".toList)
  phase := some (.string (byteOrderMark :: "design".toList))
  outcome := none
  nextPhase := none

/-- The port accepts the phase, the validator does not. -/
theorem cycleValidation_parity_markedPhase :
    ¬ ∀ (js rust : LowercaseTable) (i : ToolInput), SameVerdict js rust i := by
  intro h
  have hjs : (Js.validate asciiLowercase markedPhase).isSome = true := by
    rw [Js.validate_eq]
    decide +kernel
  have hrust := ((h asciiLowercase asciiLowercase markedPhase).1.mp hjs)
  have hno : Rust.validate asciiLowercase markedPhase =
      .error "phase must contain only ASCII letters, digits, hyphens, and underscores" := by
    decide +kernel
  rw [hno] at hrust
  cases hrust

end Unimatrix.CycleValidation
