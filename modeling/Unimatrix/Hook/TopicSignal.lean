import Mathlib.Algebra.GroupWithZero.Nat
import Unimatrix.Lib.Words

/-!
# Topic signals

Model of `topic-signal.js` and of the extractors of `attribution.rs` it is a port of. Both read a text for a feature
id along the same chain: a path `product/features/{id}/`, a word that is an id, a branch `feature/{id}`. They differ
in the classes of characters they use, so there is one chain with the classes as a parameter (`CharClasses`), and
`jsClasses` and `rustClasses` are what the two languages put in.

* `\s` of JavaScript and `char::is_whitespace` agree but for U+FEFF (the first only) and U+0085 (the second only).
* `[\p{L}\p{N}]` and `char::is_alphanumeric` are tables of the Unicode version at hand: an `AlnumTable` is any set of
  characters that is right on ASCII.

A text is the list of its code points. Cut it where both languages cut it: in each stretch that is left, the
letters, digits and hyphens of ASCII span a core, and an id is found there iff the core is one and nothing around it
counts as a letter (`featureId_eq`). `Torn` is a stretch where the languages can part.

**`topicSignal_parity`**: where no stretch is torn before one that gives an id, both extractors return the same; and
what either of them returns is a valid id. `featureIds_eq_iff` and `extractFromGitCheckout_eq_iff` say that a torn
stretch (without U+FEFF and U+0085) and a torn branch do make a difference.
-/

namespace Unimatrix.TopicSignal

open Words

/-! ## The extractors -/

/-- `MAX_FEATURE_ID_LEN`. -/
def maxFeatureIdLen : Nat := 128

/-- The length of a text in bytes. -/
def byteLength (s : List Char) : Nat := (s.map Char.utf8Size).sum

/-- `[A-Za-z0-9\-_.]`. -/
def isSafe (c : Char) : Bool := c.isAlphanum || c == '-' || c == '_' || c == '.'

/-- `is_valid_feature_id`. -/
def isValidFeatureId (s : List Char) : Bool :=
  !s.isEmpty && decide (byteLength s ≤ maxFeatureIdLen) && s.contains '-' && s.head? != some '-' &&
    s.getLast? != some '-' && s.all isSafe

/-- What follows the first occurrence of `marker`. -/
def after (marker : List Char) : List Char → Option (List Char)
  | [] => none
  | c :: s =>
    if marker.isPrefixOf (c :: s) then some ((c :: s).drop marker.length) else after marker s

theorem after_length {marker s rest : List Char} (hm : marker ≠ []) (h : after marker s = some rest) :
    rest.length < s.length := by
  induction s with
  | nil => cases h
  | cons c s ih =>
    unfold after at h
    split at h
    · cases h
      have hlen : 0 < marker.length := List.length_pos_of_ne_nil hm
      rw [List.length_drop, List.length_cons]
      omega
    · exact Nat.lt_succ_of_lt (ih h)

/-- The `marker` of `extract_from_path`. -/
def pathMarker : List Char := "product/features/".toList

/-- The one of `extract_from_git_checkout`. -/
def checkoutMarker : List Char := "feature/".toList

/-- `extract_from_path`: the first segment behind a marker that is an id. -/
def extractFromPath (s : List Char) : Option (List Char) :=
  match h : after pathMarker s with
  | none => none
  | some rest =>
    let segment := rest.takeWhile (· != '/')
    if isValidFeatureId segment then some segment
    else
      have := after_length (by decide) h
      extractFromPath rest
termination_by s.length

/-- The letters and digits of a Unicode version. -/
structure AlnumTable where
  isAlphanumeric : Char → Bool
  ascii : ∀ c : Char, c.toNat < 128 → isAlphanumeric c = c.isAlphanum

/-- The whitespace both languages know. -/
def isCommonWhitespace (c : Char) : Bool :=
  let v := c.toNat
  (9 ≤ v && v ≤ 13) || v == 0x20 || v == 0xA0 || v == 0x1680 || (0x2000 ≤ v && v ≤ 0x200A) ||
    v == 0x2028 || v == 0x2029 || v == 0x202F || v == 0x205F || v == 0x3000

/-- `/\s/u`. -/
def isJsWhitespace (c : Char) : Bool := isCommonWhitespace c || c.toNat == 0xFEFF

/-- `char::is_whitespace`. -/
def isRustWhitespace (c : Char) : Bool := isCommonWhitespace c || c.toNat == 0x85

/-- The characters words are split at: whitespace, quotes and parentheses. -/
def separates (isWhitespace : Char → Bool) (c : Char) : Bool :=
  isWhitespace c || c.toNat == 0x22 || c.toNat == 0x27 || c.toNat == 0x28 || c.toNat == 0x29

/-- The character classes a language extracts with. -/
structure CharClasses where
  isWhitespace : Char → Bool
  alnum : AlnumTable

namespace CharClasses

variable (k : CharClasses)

/-- The characters an id can begin and end with, as far as trimming goes. -/
def keeps (c : Char) : Bool := k.alnum.isAlphanumeric c || c == '-'

/-- `trimToFeatureCandidate`. -/
def trimToFeatureCandidate (word : List Char) : List Char := trim (fun c => !k.keeps c) word

/-- The id a word is, if any. -/
def featureId (word : List Char) : Option (List Char) :=
  let candidate := k.trimToFeatureCandidate word
  if isValidFeatureId candidate then some candidate else none

/-- `extract_feature_id_pattern`. -/
def extractFeatureIdPattern (s : List Char) : Option (List Char) :=
  (s.splitOnP (separates k.isWhitespace)).findSome? k.featureId

/-- `extract_from_git_checkout`. -/
def extractFromGitCheckout (s : List Char) : Option (List Char) :=
  match after checkoutMarker s with
  | none => none
  | some rest =>
    let candidate := rest.takeWhile k.keeps
    if isValidFeatureId candidate then some candidate else none

/-- `extract_topic_signal`. -/
def extractTopicSignal (text : List Char) : Option (List Char) :=
  match extractFromPath text with
  | some id => some id
  | none =>
    match k.extractFeatureIdPattern text with
    | some id => some id
    | none => k.extractFromGitCheckout text

end CharClasses

/-- `/\s/u` and `/[\p{L}\p{N}]/u`. -/
def jsClasses (table : AlnumTable) : CharClasses := ⟨isJsWhitespace, table⟩

/-- `char::is_whitespace` and `char::is_alphanumeric`. -/
def rustClasses (table : AlnumTable) : CharClasses := ⟨isRustWhitespace, table⟩

/-- `extractTopicSignal` of `topic-signal.js`. -/
def jsExtractTopicSignal (table : AlnumTable) : List Char → Option (List Char) :=
  (jsClasses table).extractTopicSignal

/-- `extract_topic_signal` of `attribution.rs`. -/
def rustExtractTopicSignal (table : AlnumTable) : List Char → Option (List Char) :=
  (rustClasses table).extractTopicSignal

/-! ## What is returned is valid -/

theorem extractFromPath_valid {s id : List Char} (h : extractFromPath s = some id) :
    isValidFeatureId id := by
  fun_induction extractFromPath s with
  | case1 => cases h
  | case2 s rest hafter segment hvalid =>
    rw [← Option.some.inj h]
    exact hvalid
  | case3 s rest hafter segment hvalid hlt ih => exact ih h

theorem featureId_valid {k : CharClasses} {word id : List Char} (h : k.featureId word = some id) :
    isValidFeatureId id := by
  unfold CharClasses.featureId at h
  simp only at h
  split at h
  · rename_i hvalid
    cases h
    exact hvalid
  · cases h

/-- **What an extractor returns is a valid feature id.** -/
theorem extractTopicSignal_valid {k : CharClasses} {text id : List Char}
    (h : k.extractTopicSignal text = some id) : isValidFeatureId id := by
  unfold CharClasses.extractTopicSignal at h
  split at h
  · rename_i hpath
    cases h
    exact extractFromPath_valid hpath
  · split at h
    · rename_i hpattern
      cases h
      obtain ⟨word, -, hword⟩ := List.exists_of_findSome?_eq_some hpattern
      exact featureId_valid hword
    · unfold CharClasses.extractFromGitCheckout at h
      split at h
      · cases h
      · simp only at h
        split at h
        · rename_i hvalid
          cases h
          exact hvalid
        · cases h

/-! ## Words and their cores -/

/-- The part of `keeps` both languages agree on. -/
def keepsAscii (c : Char) : Bool := c.isAlphanum || c == '-'

/-- What the letters, digits and hyphens of ASCII span. -/
def core (w : List Char) : List Char := trim (fun c => !keepsAscii c) w

/-- There is a letter or a digit outside ASCII. -/
def hasForeign (table : AlnumTable) (w : List Char) : Bool :=
  w.any fun c => decide (128 ≤ c.toNat) && table.isAlphanumeric c

theorem isAlphanum_range {c : Char} (h : c.isAlphanum) :
    ((65 ≤ c.toNat ∧ c.toNat ≤ 90) ∨ (97 ≤ c.toNat ∧ c.toNat ≤ 122)) ∨
      (48 ≤ c.toNat ∧ c.toNat ≤ 57) := by
  unfold Char.isAlphanum Char.isAlpha Char.isUpper Char.isLower Char.isDigit at h
  simp only [ge_iff_le, Bool.or_eq_true, Bool.and_eq_true, decide_eq_true_eq,
    UInt32.le_iff_toNat_le] at h
  exact h

theorem isAlphanum_lt {c : Char} (h : c.isAlphanum) : c.toNat < 128 := by
  have := isAlphanum_range h
  omega

theorem isSafe_lt {c : Char} (h : isSafe c) : c.toNat < 128 := by
  unfold isSafe at h
  simp only [Bool.or_eq_true, beq_iff_eq] at h
  rcases h with ((h | rfl) | rfl) | rfl
  · exact isAlphanum_lt h
  · decide
  · decide
  · decide

theorem isValidFeatureId_lt {s : List Char} (h : isValidFeatureId s) : ∀ c ∈ s, c.toNat < 128 := by
  unfold isValidFeatureId at h
  simp only [Bool.and_eq_true, List.all_eq_true] at h
  exact fun c hc => isSafe_lt (h.2 c hc)

theorem hasForeign_eq_false {table : AlnumTable} {w : List Char} :
    hasForeign table w = false ↔ ∀ c ∈ w, 128 ≤ c.toNat → table.isAlphanumeric c = false := by
  unfold hasForeign
  simp only [List.any_eq_false, Bool.and_eq_true, decide_eq_true_eq, not_and, Bool.not_eq_true]

namespace CharClasses

variable (k : CharClasses)

/-- A language keeps what is kept of ASCII, and its letters outside. -/
theorem keeps_of_lt {c : Char} (h : c.toNat < 128) : k.keeps c = keepsAscii c := by
  unfold keeps keepsAscii
  rw [k.alnum.ascii c h]

theorem keepsAscii_lt {c : Char} (h : keepsAscii c) : c.toNat < 128 := by
  unfold keepsAscii at h
  simp only [Bool.or_eq_true, beq_iff_eq] at h
  rcases h with h | rfl
  · exact isAlphanum_lt h
  · decide

theorem keeps_of_ge {c : Char} (h : 128 ≤ c.toNat) : k.keeps c = k.alnum.isAlphanumeric c := by
  unfold keeps
  have hne : (c == '-') = false := by
    rw [beq_eq_false_iff_ne]
    rintro rfl
    exact absurd h (by decide)
  rw [hne, Bool.or_false]

theorem keeps_of_keepsAscii {c : Char} (h : keepsAscii c) : k.keeps c := by
  rw [k.keeps_of_lt (keepsAscii_lt h)]
  exact h

/-- Without letters outside ASCII a word is trimmed to its core. -/
theorem trimToFeatureCandidate_eq {w : List Char} (h : hasForeign k.alnum w = false) :
    k.trimToFeatureCandidate w = core w := by
  refine trim_congr fun c hc => ?_
  by_cases hlt : c.toNat < 128
  · rw [k.keeps_of_lt hlt]
  · have hge : 128 ≤ c.toNat := not_lt.mp hlt
    have hno : keepsAscii c = false := by
      rw [Bool.eq_false_iff]
      exact fun hk => hlt (keepsAscii_lt hk)
    rw [k.keeps_of_ge hge, hasForeign_eq_false.mp h c hc hge, hno]

/-- **A word is an id iff its core is one and no letter outside ASCII stands in it.** -/
theorem featureId_eq (w : List Char) :
    k.featureId w =
      if isValidFeatureId (core w) && !hasForeign k.alnum w then some (core w) else none := by
  unfold featureId
  simp only
  by_cases hf : hasForeign k.alnum w = false
  · rw [k.trimToFeatureCandidate_eq hf, hf]
    simp only [Bool.not_false, Bool.and_true]
  · rw [Bool.not_eq_false] at hf
    rw [hf]
    simp only [Bool.not_true, Bool.and_false, Bool.false_eq_true, if_false]
    rw [if_neg]
    -- a letter outside ASCII is not trimmed off, and is not part of an id
    intro hvalid
    obtain ⟨a, b, hw, ha, hb⟩ := exists_trim (fun c => !k.keeps c) w
    obtain ⟨c, hc, hforeign⟩ := List.any_eq_true.mp hf
    rw [Bool.and_eq_true, decide_eq_true_eq] at hforeign
    have hkeep : ¬ (!k.keeps c) = true := by
      rw [k.keeps_of_ge hforeign.1, hforeign.2]
      exact Bool.false_ne_true
    rw [hw, List.mem_append, List.mem_append] at hc
    rcases hc with (hc | hc) | hc
    · exact hkeep (ha c hc)
    · exact absurd hforeign.1 (not_le.mpr (isValidFeatureId_lt hvalid c hc))
    · exact hkeep (hb c hc)

end CharClasses

/-! ## Stretches -/

/-- Both languages split here. -/
def separatesBoth (c : Char) : Bool := separates isJsWhitespace c && separates isRustWhitespace c

/-- One of them does. -/
def separatesOne (c : Char) : Bool := separates isJsWhitespace c || separates isRustWhitespace c

/-- What is left between the places where both languages split. -/
def stretches (s : List Char) : List (List Char) := s.splitOnP separatesBoth

section Parity

variable (js rust : AlnumTable)

/-- The stretch has an id for a core and nothing that counts as a letter around it. -/
def Gives (w : List Char) : Bool :=
  isValidFeatureId (core w) && !hasForeign js w && !hasForeign rust w

/-- The stretch has an id for a core, and around it what one language takes for a letter and the other does not.
Where only one language splits it further, some piece has an id for a core that not both languages reject, and more
than that core stands in the stretch. -/
def Torn (w : List Char) : Bool :=
  if w.any separatesOne then
    !Gives js rust w && (w.splitOnP separatesOne).any fun g =>
      isValidFeatureId (core g) && !(hasForeign js g && hasForeign rust g)
  else isValidFeatureId (core w) && hasForeign js w != hasForeign rust w

/-- The first branch of the text is an id up to a character that one language takes for a letter. -/
def TornCheckout (s : List Char) : Bool :=
  match after checkoutMarker s with
  | none => false
  | some rest =>
    isValidFeatureId (rest.takeWhile keepsAscii) &&
      (rest.dropWhile keepsAscii).head?.any fun c => js.isAlphanumeric c != rust.isAlphanumeric c

/-- A path holds an id, or no stretch is torn before one that gives an id, nor a branch where none does. -/
def Untorn (s : List Char) : Prop :=
  (extractFromPath s).isSome ∨
    (∀ w ∈ (stretches s).takeWhile fun w => !Gives js rust w, Torn js rust w = false) ∧
      ((∀ w ∈ stretches s, Gives js rust w = false) → TornCheckout js rust s = false)

/-- The first id a language finds in a stretch. -/
def firstId (k : CharClasses) (w : List Char) : Option (List Char) :=
  (w.splitOnP (separates k.isWhitespace)).findSome? k.featureId

/-- The classes of one of the two languages. -/
structure Reads (k : CharClasses) : Prop where
  both : ∀ c, separatesBoth c → separates k.isWhitespace c
  one : ∀ c, separates k.isWhitespace c → separatesOne c
  alnum : k.alnum = js ∨ k.alnum = rust

variable {js rust}

theorem reads_js : Reads js rust (jsClasses js) where
  both _ h := (Bool.and_eq_true_iff.mp h).1
  one _ h := Bool.or_eq_true_iff.mpr (.inl h)
  alnum := .inl rfl

theorem reads_rust : Reads js rust (rustClasses rust) where
  both _ h := (Bool.and_eq_true_iff.mp h).2
  one _ h := Bool.or_eq_true_iff.mpr (.inr h)
  alnum := .inr rfl

/-- A language may as well look at one stretch after the other. -/
theorem extractFeatureIdPattern_eq {k : CharClasses} (hk : Reads js rust k) (s : List Char) :
    k.extractFeatureIdPattern s = (stretches s).findSome? (firstId k) := by
  unfold CharClasses.extractFeatureIdPattern stretches
  rw [← splitOnP_splitOnP hk.both, findSome?_flatMap]
  rfl

theorem isSafe_not_separates {c : Char} (h : isSafe c) : separatesOne c = false := by
  have hlt : (65 ≤ c.toNat ∧ c.toNat ≤ 90) ∨ (97 ≤ c.toNat ∧ c.toNat ≤ 122) ∨
      (48 ≤ c.toNat ∧ c.toNat ≤ 57) ∨ c.toNat = 45 ∨ c.toNat = 95 ∨ c.toNat = 46 := by
    unfold isSafe at h
    simp only [Bool.or_eq_true, beq_iff_eq] at h
    rcases h with ((h | rfl) | rfl) | rfl
    · have := isAlphanum_range h
      omega
    · decide
    · decide
    · decide
  unfold separatesOne separates isJsWhitespace isRustWhitespace isCommonWhitespace
  simp only [Bool.or_eq_false_iff, Bool.and_eq_false_iff, beq_eq_false_iff_ne, decide_eq_false_iff_not]
  omega

theorem core_not_separates {w : List Char} (h : isValidFeatureId (core w)) :
    ∀ c ∈ core w, separatesOne c = false := by
  intro c hc
  unfold isValidFeatureId at h
  simp only [Bool.and_eq_true, List.all_eq_true] at h
  exact isSafe_not_separates (h.2 c hc)

theorem hasForeign_of_subset {table : AlnumTable} {v w : List Char} (hsub : v ⊆ w)
    (h : hasForeign table w = false) : hasForeign table v = false :=
  hasForeign_eq_false.mpr fun c hc => hasForeign_eq_false.mp h c (hsub hc)

/-- The piece with the core in it, however a stretch is split: the others hold nothing of ASCII that is kept. -/
theorem splitOnP_core (sep : Char → Bool) (hsep : ∀ c, sep c → separatesOne c) {w : List Char}
    (h : isValidFeatureId (core w)) :
    ∃ pre g post, w.splitOnP sep = pre ++ g :: post ∧ core g = core w ∧ g ⊆ w ∧
      ∀ v ∈ pre, core v = [] := by
  obtain ⟨a, b, hw, ha, hb⟩ := exists_trim (fun c => !keepsAscii c) w
  have hm : ∀ c ∈ core w, sep c = false := by
    intro c hc
    rw [Bool.eq_false_iff]
    exact fun hs => Bool.eq_false_iff.mp (core_not_separates h c hc) (hsep c hs)
  obtain ⟨pre, a', b', post, hsplit, ha', hb', hpre, -⟩ := splitOnP_around (a := a) (b := b) hm
  have hw' : w = a ++ core w ++ b := hw
  refine ⟨pre, a' ++ core w ++ b', post, by rw [← hsplit, ← hw'], ?_, ?_, fun v hv => ?_⟩
  · exact (trim_append (fun c hc => ha c (ha' hc)) fun c hc => hb c (hb' hc)).trans (trim_trim w)
  · intro c hc
    rw [hw', List.mem_append, List.mem_append]
    rw [List.mem_append, List.mem_append] at hc
    rcases hc with (hc | hc) | hc
    · exact .inl (.inl (ha' hc))
    · exact .inl (.inr hc)
    · exact .inr (hb' hc)
  · exact trim_eq_nil fun c hc => ha c (hpre v hv hc)

/-- **The stretch that gives an id gives its core, in both languages.** -/
theorem firstId_of_gives {k : CharClasses} (hk : Reads js rust k) {w : List Char}
    (h : Gives js rust w) : firstId k w = some (core w) := by
  unfold Gives at h
  simp only [Bool.and_eq_true, Bool.not_eq_true'] at h
  obtain ⟨⟨hvalid, hjs⟩, hrust⟩ := h
  have hforeign : hasForeign k.alnum w = false := by
    rcases hk.alnum with h | h
    · rw [h, hjs]
    · rw [h, hrust]
  obtain ⟨pre, g, post, hsplit, hcore, hsub, hpre⟩ := splitOnP_core _ hk.one hvalid
  have hnone : pre.findSome? k.featureId = none := by
    rw [List.findSome?_eq_none_iff]
    intro v hv
    rw [k.featureId_eq, hpre v hv]
    rfl
  have hsome : k.featureId g = some (core w) := by
    rw [k.featureId_eq, hcore, hvalid, hasForeign_of_subset hsub hforeign]
    rfl
  unfold firstId
  rw [hsplit, List.findSome?_append, hnone, List.findSome?_cons, hsome]
  rfl

/-- A stretch none of whose pieces has an id for a core that the language takes has no id. -/
theorem firstId_eq_none {k : CharClasses} (hk : Reads js rust k) {w : List Char}
    (h : ∀ g ∈ w.splitOnP separatesOne, isValidFeatureId (core g) → hasForeign k.alnum g) :
    firstId k w = none := by
  unfold firstId
  rw [List.findSome?_eq_none_iff]
  intro v hv
  rw [k.featureId_eq, if_neg]
  rw [Bool.and_eq_true, Bool.not_eq_true']
  rintro ⟨hvalid, hforeign⟩
  obtain ⟨pre, g, post, hsplit, hcore, hsub, -⟩ := splitOnP_core separatesOne (fun c h => h) hvalid
  have hg : g ∈ w.splitOnP separatesOne := by
    rw [← splitOnP_splitOnP hk.one, List.mem_flatMap]
    exact ⟨v, hv, by rw [hsplit]; exact List.mem_append_right pre List.mem_cons_self⟩
  have hyes := h g hg (by rw [hcore]; exact hvalid)
  rw [hasForeign_of_subset hsub hforeign] at hyes
  cases hyes

/-- **A stretch that is not torn and gives no id gives none to either language.** -/
theorem firstId_of_not_torn {k : CharClasses} (hk : Reads js rust k) {w : List Char}
    (hgives : Gives js rust w = false) (h : Torn js rust w = false) : firstId k w = none := by
  refine firstId_eq_none hk fun g hg hvalid => ?_
  have hboth : hasForeign js g = true ∧ hasForeign rust g = true := by
    unfold Torn at h
    split at h
    · rw [hgives, Bool.not_false, Bool.true_and, List.any_eq_false] at h
      have := h g hg
      simp only [hvalid, Bool.true_and, Bool.not_eq_true', Bool.not_eq_false, Bool.and_eq_true] at this
      exact this
    · rename_i hwhole
      have hone : w.splitOnP separatesOne = [w] := List.splitOnP_eq_singleton fun c hc => by
        simpa using fun hs => hwhole (List.any_eq_true.mpr ⟨c, hc, hs⟩)
      rw [hone, List.mem_singleton] at hg
      subst hg
      unfold Gives at hgives
      rw [hvalid, Bool.true_and] at h hgives
      cases hjs : hasForeign js g <;> cases hrust : hasForeign rust g <;>
        simp [hjs, hrust] at h hgives ⊢
  rcases hk.alnum with h | h
  · rw [h, hboth.1]
  · rw [h, hboth.2]

/-! ## Parity -/

/-- Where one language splits a stretch no further than the other, they find the same iff it is not torn. -/
theorem featureIds_eq_iff {w : List Char} (hw : ∀ c ∈ w, separatesOne c = false) :
    firstId (jsClasses js) w = firstId (rustClasses rust) w ↔ Torn js rust w = false := by
  have whole : ∀ {k : CharClasses}, Reads js rust k → firstId k w = k.featureId w := by
    intro k hk
    have hsep : ∀ c ∈ w, separates k.isWhitespace c = false := fun c hc =>
      Bool.eq_false_iff.mpr fun hs => Bool.eq_false_iff.mp (hw c hc) (hk.one c hs)
    unfold firstId
    rw [List.splitOnP_eq_singleton hsep, List.findSome?_cons]
    cases k.featureId w <;> rfl
  have hany : w.any separatesOne = false := List.any_eq_false.mpr fun c hc => by
    rw [hw c hc]
    exact Bool.false_ne_true
  rw [whole reads_js, whole reads_rust, CharClasses.featureId_eq, CharClasses.featureId_eq]
  unfold Torn
  rw [hany]
  change (if isValidFeatureId (core w) && !hasForeign js w then some (core w) else none) =
    (if isValidFeatureId (core w) && !hasForeign rust w then some (core w) else none) ↔ _
  cases isValidFeatureId (core w) <;> cases hasForeign js w <;> cases hasForeign rust w <;> simp

/-- Behind `feature/` a language takes what is kept of ASCII, and gives it up if it takes a letter after it. -/
theorem extractFromGitCheckout_eq {k : CharClasses} {s rest : List Char}
    (h : after checkoutMarker s = some rest) :
    k.extractFromGitCheckout s =
      if isValidFeatureId (rest.takeWhile keepsAscii) &&
          !(rest.dropWhile keepsAscii).head?.any k.alnum.isAlphanumeric then
        some (rest.takeWhile keepsAscii)
      else none := by
  unfold CharClasses.extractFromGitCheckout
  rw [h]
  simp only
  have hall : ∀ c ∈ rest.takeWhile keepsAscii, k.keeps c := fun c hc =>
    k.keeps_of_keepsAscii (List.mem_takeWhile_imp hc)
  have htake : rest.takeWhile k.keeps =
      rest.takeWhile keepsAscii ++ (rest.dropWhile keepsAscii).takeWhile k.keeps := by
    conv_lhs => rw [← List.takeWhile_append_dropWhile (p := keepsAscii) (l := rest)]
    rw [List.takeWhile_append_of_pos hall]
  rw [htake]
  cases hd : rest.dropWhile keepsAscii with
  | nil => simp only [List.takeWhile_nil, List.append_nil, List.head?_nil, Option.any_none,
      Bool.not_false, Bool.and_true]
  | cons c d =>
    have hc : keepsAscii c = false := by
      have hne : rest.dropWhile keepsAscii ≠ [] := by
        rw [hd]
        exact List.cons_ne_nil c d
      have hhead := List.head_dropWhile_not keepsAscii hne
      simpa only [hd, List.head_cons] using hhead
    have hkeeps : k.keeps c = k.alnum.isAlphanumeric c := by
      unfold keepsAscii at hc
      unfold CharClasses.keeps
      rw [(Bool.or_eq_false_iff.mp hc).2, Bool.or_false]
    rw [List.head?_cons, Option.any_some]
    cases hk : k.alnum.isAlphanumeric c with
    | false =>
      rw [List.takeWhile_cons_of_neg (by rw [hkeeps, hk]; exact Bool.false_ne_true)]
      simp only [List.append_nil, Bool.not_false, Bool.and_true]
    | true =>
      rw [List.takeWhile_cons_of_pos (by rw [hkeeps, hk])]
      simp only [Bool.not_true, Bool.and_false, Bool.false_eq_true, if_false]
      rw [if_neg]
      intro hvalid
      have hlt := isValidFeatureId_lt hvalid c (List.mem_append_right _ List.mem_cons_self)
      rw [k.keeps_of_lt hlt, hc] at hkeeps
      rw [← hkeeps] at hk
      cases hk

/-- **The branch extractors agree iff the branch is not torn.** -/
theorem extractFromGitCheckout_eq_iff (s : List Char) :
    (jsClasses js).extractFromGitCheckout s = (rustClasses rust).extractFromGitCheckout s ↔
      TornCheckout js rust s = false := by
  cases h : after checkoutMarker s with
  | none =>
    unfold CharClasses.extractFromGitCheckout TornCheckout
    rw [h]
    exact ⟨fun _ => rfl, fun _ => rfl⟩
  | some rest =>
    rw [extractFromGitCheckout_eq h, extractFromGitCheckout_eq h]
    unfold TornCheckout
    rw [h]
    simp only
    change (if _ && !Option.any js.isAlphanumeric _ then _ else _) =
      (if _ && !Option.any rust.isAlphanumeric _ then _ else _) ↔ _
    cases isValidFeatureId (rest.takeWhile keepsAscii) with
    | false => simp
    | true =>
      cases (rest.dropWhile keepsAscii).head? with
      | none => simp
      | some c =>
        rw [Option.any_some, Option.any_some, Option.any_some]
        cases js.isAlphanumeric c <;> cases rust.isAlphanumeric c <;> simp

/-- One stretch after the other. -/
theorem findSome?_firstId {k : CharClasses} (hk : Reads js rust k) :
    ∀ ws : List (List Char),
      (∀ w ∈ ws.takeWhile fun w => !Gives js rust w, Torn js rust w = false) →
      ws.findSome? (firstId k) = (ws.find? (Gives js rust)).map core
  | [], _ => rfl
  | w :: ws, h => by
    rw [List.findSome?_cons, List.find?_cons]
    cases hg : Gives js rust w with
    | true =>
      rw [firstId_of_gives hk hg]
      rfl
    | false =>
      rw [List.takeWhile_cons_of_pos (by rw [hg]; rfl)] at h
      obtain ⟨hw, hws⟩ := List.forall_mem_cons.mp h
      rw [firstId_of_not_torn hk hg hw]
      exact findSome?_firstId hk ws hws

end Parity

/-- **Both extractors find the same where nothing is torn, and what they find is a valid id.** -/
theorem topicSignal_parity (js rust : AlnumTable) (text : List Char) :
    (Untorn js rust text → jsExtractTopicSignal js text = rustExtractTopicSignal rust text) ∧
      ∀ id, jsExtractTopicSignal js text = some id ∨ rustExtractTopicSignal rust text = some id →
        isValidFeatureId id := by
  refine ⟨fun h => ?_, fun id h => h.elim extractTopicSignal_valid extractTopicSignal_valid⟩
  unfold jsExtractTopicSignal rustExtractTopicSignal CharClasses.extractTopicSignal
  cases hpath : extractFromPath text with
  | some id => rfl
  | none =>
    rcases h with h | ⟨hpattern, hcheckout⟩
    · rw [hpath] at h
      cases h
    · simp only
      rw [extractFeatureIdPattern_eq (reads_js : Reads js rust _),
        extractFeatureIdPattern_eq (reads_rust : Reads js rust _),
        findSome?_firstId reads_js _ hpattern, findSome?_firstId reads_rust _ hpattern]
      cases hfind : (stretches text).find? (Gives js rust) with
      | some w => rfl
      | none =>
        have hnone : ∀ w ∈ stretches text, Gives js rust w = false := fun w hw =>
          Bool.eq_false_iff.mpr (List.find?_eq_none.mp hfind w hw)
        exact (extractFromGitCheckout_eq_iff text).mpr (hcheckout hnone)

/-- The table of ASCII alone, which is right on every text without letters or digits outside ASCII. -/
def asciiTable : AlnumTable := ⟨Char.isAlphanum, fun _ _ => rfl⟩

theorem extractFromPath_eq_none {s : List Char} (h : after pathMarker s = none) :
    extractFromPath s = none := by
  unfold extractFromPath
  split
  · rfl
  · rename_i hafter
    rw [h] at hafter
    cases hafter

/-- A text that begins with a byte order mark. -/
def markedText : List Char := Char.ofNat 0xFEFF :: "col-002 done".toList

theorem topicSignal_parity_markedText :
    jsExtractTopicSignal asciiTable markedText = rustExtractTopicSignal asciiTable markedText :=
  (topicSignal_parity asciiTable asciiTable markedText).1
    (.inr ⟨by decide +kernel, by decide +kernel⟩)

/-- An id, a next line character and a letter: only one language takes it for two words. -/
def nextLineText : List Char := "col-002".toList ++ [Char.ofNat 0x85, 'x']

/-- JavaScript finds no id in it, Rust does. -/
theorem nextLine_differs :
    jsExtractTopicSignal asciiTable nextLineText = none ∧
      rustExtractTopicSignal asciiTable nextLineText = some "col-002".toList := by
  have hpath : extractFromPath nextLineText = none := extractFromPath_eq_none (by decide)
  unfold jsExtractTopicSignal rustExtractTopicSignal CharClasses.extractTopicSignal
  rw [hpath]
  exact ⟨by decide +kernel, by decide +kernel⟩

end Unimatrix.TopicSignal
