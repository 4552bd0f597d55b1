import Unimatrix.Contradiction.Directives

/-!
# The scan of the instructions

Model of `scan_title` of `ContentScanner` (`scanning.rs`): the expressions for injections, in their order. The first one
that matches is reported, with its leftmost match.

* Every expression but the last is `(?i)`: a letter of it is a letter up to simple case folding (`fold`), and the hex
  digits have no other foldings.
-/

namespace Unimatrix.Config

open Regex TopicSignal Contradiction

/-- `PatternCategory`, those of the injections. -/
inductive PatternCategory where
  | instructionOverride
  | roleImpersonation
  | systemPromptExtraction
  | delimiterInjection
  | encodingEvasion
  deriving DecidableEq, Repr

/-- `PatternCategory::fmt`. -/
def PatternCategory.name : PatternCategory → String
  | .instructionOverride => "InstructionOverride"
  | .roleImpersonation => "RoleImpersonation"
  | .systemPromptExtraction => "SystemPromptExtraction"
  | .delimiterInjection => "DelimiterInjection"
  | .encodingEvasion => "EncodingEvasion"

/-- The description that goes with the category in `build_injection_patterns`. -/
def PatternCategory.description : PatternCategory → String
  | .instructionOverride => "instruction override attempt detected"
  | .roleImpersonation => "role impersonation attempt detected"
  | .systemPromptExtraction => "system prompt extraction attempt detected"
  | .delimiterInjection => "delimiter injection attempt detected"
  | .encodingEvasion => "encoding evasion attempt detected"

/-- `ScanResult`. -/
structure ScanResult where
  category : PatternCategory
  description : String
  matchedText : Str
  deriving DecidableEq, Repr

/-! ## The expressions -/

/-- `\s+`. -/
def gap : Expr Char := plus isRustWhitespace

/-- `\s*`. -/
def blanks : Expr Char := .many isRustWhitespace

/-- One after the other. -/
def phrase (as : List (Expr Char)) : Expr Char := as.foldr .seq .empty

/-- `(a)?`. -/
def optional (as : List (Expr Char)) : Expr Char := .alt (phrase as) .empty

/-- `(v|w|...)`. -/
def oneWord (ws : List String) : Expr Char := oneOf (ws.map keyword)

/-- `(?:a\s+|an\s+)?`. -/
def article : Expr Char := .alt (phrase [keyword "a", gap]) (optional [keyword "an", gap])

/-- `[0-9a-fA-F]`. -/
def isHexDigit (c : Char) : Bool :=
  let n := c.toNat
  decide (48 ≤ n ∧ n ≤ 57) || decide (97 ≤ n ∧ n ≤ 102) || decide (65 ≤ n ∧ n ≤ 70)

/-- `[0-9a-fA-F]`, so many times. -/
def hexDigits (n : Nat) : Expr Char := phrase (List.replicate n (.cls isHexDigit))

/-- `\\u[0-9a-fA-F]{4}`. -/
def unicodeEscape : Expr Char := phrase [keyword "\\u", hexDigits 4]

/-- `&#x?[0-9a-fA-F]+;`. -/
def entity : Expr Char := phrase [keyword "&#", optional [keyword "x"], plus isHexDigit, keyword ";"]

/-- `%[0-9a-fA-F]{2}`. -/
def percent : Expr Char := phrase [keyword "%", hexDigits 2]

def instructionOverrides : List (Expr Char) :=
  [phrase [keyword "ignore", gap, optional [keyword "all", gap], keyword "previous", gap, keyword "instructions"],
    phrase [keyword "disregard", gap, optional [keyword "all", gap], oneWord ["above", "prior", "previous"]],
    phrase [keyword "forget", gap, optional [keyword "all", gap], keyword "your", gap,
      optional [keyword "previous", gap], keyword "instructions"],
    phrase [keyword "override", gap, optional [keyword "all", gap], oneWord ["previous", "prior", "above"], gap,
      oneWord ["instructions", "rules", "guidelines"]],
    phrase [keyword "do", gap, keyword "not", gap, keyword "follow", gap, optional [keyword "the", gap],
      oneWord ["above", "previous", "prior"], gap, oneWord ["instructions", "rules"]],
    phrase [keyword "new", gap, keyword "instruction", optional [keyword "s"], blanks, keyword ":"],
    phrase [keyword "system", blanks, keyword ":", blanks, keyword "you", gap, keyword "are"],
    phrase [keyword "[", blanks, keyword "system", blanks, keyword "]"]]

def roleImpersonations : List (Expr Char) :=
  [phrase [keyword "you", gap, keyword "are", gap, keyword "now", gap, article,
      oneWord ["root", "admin", "superuser", "developer", "hacker", "system", "different", "new", "my", "the",
        "unrestricted", "jailbroken"]],
    phrase [keyword "act", gap, keyword "as", gap, article,
      oneWord ["root", "admin", "superuser", "developer", "hacker", "system"]],
    phrase [keyword "pretend", gap, oneOf [phrase [keyword "to", gap, keyword "be"], phrase [keyword "you", gap, keyword "are"]],
      gap, article, oneWord ["root", "admin", "superuser", "developer", "hacker", "system", "different", "new", "unrestricted"]],
    phrase [keyword "assume", gap, keyword "the", gap, oneWord ["role", "identity", "persona"], gap, keyword "of"],
    phrase [keyword "you", gap, keyword "must", gap, optional [keyword "now", gap],
      oneOf [keyword "be", keyword "become", phrase [keyword "act", gap, keyword "as"]]],
    phrase [keyword "switch", gap, oneWord ["to", "into"], gap, article, optional [keyword "new", gap],
      oneWord ["role", "mode", "persona"]]]

def systemPromptExtractions : List (Expr Char) :=
  [phrase [oneWord ["show", "display", "reveal", "output", "print", "repeat"], gap, optional [keyword "your", gap],
      optional [keyword "system", gap], oneWord ["prompt", "instructions", "rules"]],
    phrase [keyword "what", gap, oneWord ["are", "were"], gap, keyword "your", gap,
      optional [oneWord ["initial", "original", "system"]], blanks, keyword "instructions"],
    phrase [oneWord ["copy", "paste", "echo"], gap, optional [keyword "the", gap], oneWord ["above", "previous"], gap,
      oneWord ["text", "instructions", "prompt"]],
    phrase [keyword "dump", gap, optional [keyword "your", gap], optional [keyword "system", gap],
      oneWord ["prompt", "config", "instructions"]],
    phrase [keyword "tell", gap, keyword "me", gap, optional [keyword "your", gap], optional [keyword "system", gap],
      oneWord ["prompt", "instructions"]]]

def delimiterInjections : List (Expr Char) :=
  [phrase [keyword "<", blanks, keyword "/", blanks, oneWord ["system", "instruction", "prompt", "context", "message"],
      blanks, keyword ">"],
    phrase [keyword "<", blanks, oneWord ["system", "instruction", "prompt"], blanks, keyword ">"],
    phrase [keyword "```", blanks, oneWord ["system", "instruction", "prompt"]],
    phrase [keyword "---", blanks, oneWord ["system", "end", "begin"], blanks, keyword "---"],
    phrase [keyword "[", blanks, oneWord ["inst", "sys", "end"], blanks, keyword "]"]]

def encodingEvasions : List (Expr Char) :=
  [phrase [oneWord ["base64", "b64"], blanks,
      oneOf [keyword "decode", phrase [keyword "encode", optional [keyword "d"]]], blanks, keyword ":"],
    phrase [unicodeEscape, blanks, unicodeEscape, blanks, unicodeEscape],
    phrase [entity, blanks, entity, blanks, entity],
    phrase [percent, percent, percent]]

/-- `build_injection_patterns`. -/
def injectionPatterns : List (PatternCategory × Expr Char) :=
  instructionOverrides.map (.instructionOverride, ·) ++ roleImpersonations.map (.roleImpersonation, ·) ++
    systemPromptExtractions.map (.systemPromptExtraction, ·) ++ delimiterInjections.map (.delimiterInjection, ·) ++
    encodingEvasions.map (.encodingEvasion, ·)

/-! ## The scan -/

/-- `pattern.regex.find(title)`, with what is reported of it. -/
def find (title : Str) (pattern : PatternCategory × Expr Char) : Option ScanResult :=
  (captures pattern.2 title).head?.map fun m =>
    ⟨pattern.1, pattern.1.description, (title.drop m.start).take (m.final.pos - m.start)⟩

/-- `scan_title`. -/
def scanTitle (title : Str) : Option ScanResult := injectionPatterns.findSome? (find title)

/-- **The scan passes exactly the titles in which no expression matches anywhere.** -/
theorem scanTitle_eq_none (title : Str) :
    scanTitle title = none ↔ ∀ pattern ∈ injectionPatterns, captures pattern.2 title = [] := by
  simp [scanTitle, find]

end Unimatrix.Config
