import Mathlib.Data.Char
import Mathlib.Data.List.Infix
import Unimatrix.Hook.TopicSignal
import Unimatrix.Lib.F64
import Unimatrix.Lib.Regex

/-!
# The conflict heuristic

Model of `directive_regex`, `extract_directives`, the three signals and `conflict_heuristic` of
`contradiction.rs`.

* The expression is translated as it stands, in the order of its alternatives; it is matched as the `regex` crate does,
  leftmost first (`Regex.captures`). `(?i)` reads a letter up to simple case folding (`fold`): the long s is an s.
* `\s` and `char::is_whitespace` are one table. `\w` and `str::to_lowercase` are `Unicode`, with what is used of them.
* An `f32` is a number of `F`; the sensitivity may be a NaN, which is `none`.
-/

namespace Unimatrix.Contradiction

open Regex TopicSignal

/-- A string. -/
abbrev Str : Type := List Char

/-- A letter of the expression matches the characters that fold to it. -/
def fold (c : Char) : Char :=
  if c = Char.ofNat 0x17F then 's' else if c = Char.ofNat 0x212A then 'k' else c.toLower

/-- What the program asks of Unicode. -/
structure Unicode where
  /-- `\w`. -/
  isWord : Char → Bool
  /-- `str::to_lowercase`. -/
  toLowercase : Str → Str
  word_ascii : ∀ c : Char, c.toNat < 128 → isWord c = (c.isAlphanum || c == '_')
  word_space : ∀ c, isRustWhitespace c → isWord c = false
  word_fold : ∀ c, isWord (fold c) = isWord c
  /-- Whitespace has no case. -/
  lower_plain : ∀ s : Str, (∀ c ∈ s, c.toNat < 128 ∨ isRustWhitespace c) → toLowercase s = s.map Char.toLower

/-! ## Directives -/

/-- `first_n_words`. -/
def firstNWords (s : Str) (n : Nat) : Str :=
  [' '].intercalate (((s.splitOnP isRustWhitespace).filter fun w => w ≠ []).take n)

/-- A word of the expression. -/
def keyword (w : String) : Expr Char := word fold w.toList

/-- `a\s+b`. -/
def keywords (a b : String) : Expr Char := .seq (keyword a) (.seq (plus isRustWhitespace) (keyword b))

/-- `use|always|prefer|should|must|enable|avoid|never|do\s+not|don't|should\s+not|must\s+not|disable`. -/
def verbs : List (Expr Char) :=
  [keyword "use", keyword "always", keyword "prefer", keyword "should", keyword "must", keyword "enable",
    keyword "avoid", keyword "never", keywords "do" "not", keyword "don't", keywords "should" "not",
    keywords "must" "not", keyword "disable"]

/-- `\w[\w\s\-]*`. -/
def subject (u : Unicode) : Expr Char :=
  .seq (.cls u.isWord) (.many fun c => u.isWord c || isRustWhitespace c || c == '-')

/-- What follows the verb. -/
def object (u : Unicode) : Expr Char := .seq (plus isRustWhitespace) (.group 2 (subject u))

/-- `directive_regex`. -/
def directiveRegex (u : Unicode) : Expr Char :=
  .seq (.boundary u.isWord) (.seq (.group 1 (oneOf verbs)) (object u))

/-- `cap[i]`. -/
def groupText (m : Match Char) (i : Nat) : Str := ((m.final.capture i).map Capture.text).getD []

/-- A directive: its verb and its subject. -/
def directiveOf (u : Unicode) (m : Match Char) : Str × Str :=
  (u.toLowercase (groupText m 1), firstNWords (u.toLowercase (Words.trim isRustWhitespace (groupText m 2))) 4)

/-- `extract_directives`. -/
def extractDirectives (u : Unicode) (content : Str) : List (Str × Str) :=
  (captures (directiveRegex u) content).map (directiveOf u)

def affirmativeVerbs : List String := ["use", "always", "prefer", "should", "must", "enable"]

def negativeVerbs : List String := ["avoid", "never", "do not", "don't", "should not", "must not", "disable"]

/-- `is_affirmative`. -/
def isAffirmative (verb : Str) : Bool :=
  if verb ∈ affirmativeVerbs.map String.toList then true
  else if verb ∈ negativeVerbs.map String.toList then false
  else true

/-- `a.contains(b)`. -/
def contains (a b : Str) : Bool := decide (b <:+: a)

/-! ## Signals -/

section Signals

variable {F : Type} [F64 F]

/-- `compare_subjects`. -/
def compareSubjects (subjectA subjectB : Str) : F :=
  if subjectA = subjectB then 1
  else if contains subjectA subjectB || contains subjectB subjectA then 0.5
  else 0

/-- One pair of directives. -/
def opposePair (a : Str × Str) (maxScore : F) (b : Str × Str) : F :=
  if isAffirmative a.1 = isAffirmative b.1 then maxScore
  else
    let subjectMatch : F := compareSubjects a.2 b.2
    if 0 < subjectMatch then max maxScore subjectMatch else maxScore

/-- `check_negation_opposition`. -/
def checkNegationOpposition (u : Unicode) (contentA contentB : Str) : F :=
  (extractDirectives u contentA).foldl (fun maxScore a => (extractDirectives u contentB).foldl (opposePair a) maxScore) 0

/-- The subjects of the affirmative directives. -/
def affirmatives (u : Unicode) (content : Str) : List Str :=
  ((extractDirectives u content).filter fun d => isAffirmative d.1).map Prod.snd

/-- `check_incompatible_directives`. -/
def checkIncompatibleDirectives (u : Unicode) (contentA contentB : Str) : F :=
  if (affirmatives u contentA).any fun subA => (affirmatives u contentB).any fun subB =>
      subA ≠ subB && !contains subA subB && !contains subB subA
  then 1 else 0

def positiveMarkers : List String := ["recommended", "best practice", "preferred", "ideal", "excellent"]

def negativeMarkers : List String := ["anti-pattern", "discouraged", "problematic", "risky", "avoid", "bad practice"]

def hasMarker (markers : List String) (lower : Str) : Bool := markers.any fun m => contains lower m.toList

/-- `check_opposing_sentiment`. -/
def checkOpposingSentiment (u : Unicode) (contentA contentB : Str) : F :=
  let aLower := u.toLowercase contentA
  let bLower := u.toLowercase contentB
  if hasMarker positiveMarkers aLower && hasMarker negativeMarkers bLower ||
      hasMarker negativeMarkers aLower && hasMarker positiveMarkers bLower
  then 1 else 0

/-- A signal: its name, its score and its weight. -/
structure Signal (F : Type) where
  name : String
  score : F
  weight : F

/-- The three signals of two contents. -/
def signalsOf (u : Unicode) (contentA contentB : Str) : List (Signal F) :=
  [⟨"negation opposition", checkNegationOpposition u contentA contentB, 0.6⟩,
    ⟨"incompatible directives", checkIncompatibleDirectives u contentA contentB, 0.3⟩,
    ⟨"opposing sentiment", checkOpposingSentiment u contentA contentB, 0.1⟩]

/-- `total < 1.0 - sensitivity`; nothing is below a NaN. -/
def belowThreshold (total : F) (sensitivity : Option F) : Bool := sensitivity.any fun s => total < 1 - s

/-- `conflict_heuristic`. `fixed2` writes a score with two digits behind the point. -/
def conflictHeuristic (u : Unicode) (fixed2 : F → String) (contentA contentB : Str) (sensitivity : Option F) :
    F × String :=
  let signals := (signalsOf u contentA contentB).filter fun s => 0 < s.score
  let total := F64.clamp ((signals.map fun s => s.score * s.weight).foldl (· + ·) 0) 0 1
  if belowThreshold total sensitivity then (0, "")
  else (total, "; ".intercalate (signals.map fun s => s.name ++ " (" ++ fixed2 s.score ++ ")"))

end Signals

end Unimatrix.Contradiction
