import Mathlib.Data.List.DropRight
import Unimatrix.Install.Text
import Unimatrix.Lib.KeptLines

/-!
# The Codex configuration as text

Model of the surgical TOML writer of `codex-install.js`: `splitKeepEndings` to `upsertTomlTable`, `tomlString` and
`buildTomlEmit`.

* A text is a list of UTF-16 code units. `tomlString` goes over code points, but what it escapes is ASCII and the two
  units of a surrogate pair are copied one after the other.
* An index into a string is the rest of it from there; `i += 3` skips the two units behind the one that was read.
* `startsWith` is `isPrefixOf`, and a regular expression that is anchored at the end reads the text from there.
* The loop of `scanTables` is a fold over the lines that stops with an error.
-/

namespace Unimatrix.CodexInstall

open Install

/-! ## Text -/

/-- `OWNED_TABLE`. -/
def ownedTable : Text := units "mcp_servers.unimatrix"

/-- `splitKeepEndings`. -/
def splitKeepEndings (raw : Text) : List Text := KeptLines.split (unit '\n') raw

/-- `line.replace(/\r?\n$/, "")`. -/
def stripLineEnding (line : Text) : Text :=
  if line.getLast? = some (unit '\n') then
    if line.dropLast.getLast? = some (unit '\r') then line.dropLast.dropLast else line.dropLast
  else line

/-- How often `\r\n` occurs. -/
def countCrlf : Text → Nat
  | [] => 0
  | [_] => 0
  | c :: d :: raw => (if c = unit '\r' ∧ d = unit '\n' then 1 else 0) + countCrlf (d :: raw)

/-- `dominantLineEnding`. -/
def dominantLineEnding (raw : Text) : Text :=
  let crlf := countCrlf raw
  let lf := raw.count (unit '\n') - crlf
  if lf < crlf then [unit '\r', unit '\n'] else [unit '\n']

/-- `[ \t]`. -/
def isBlank (c : UInt16) : Bool := c == unit ' ' || c == unit '\t'

/-- What `(?:\r?\n)$` leaves of a text that is read from its end. -/
def beforeNewline : Text → Option Text
  | [] => none
  | c :: back =>
    if c = unit '\n' then
      match back with
      | [] => some []
      | d :: back' => some (if d = unit '\r' then back' else d :: back')
    else none

/-- `endsWithBlankLine`. -/
def endsWithBlankLine (s : Text) : Bool :=
  match beforeNewline s.reverse with
  | none => false
  | some back => (back.dropWhile isBlank).head? == some (unit '\n')

/-! ## The scanner -/

/-- The two delimiters of a multi-line string. -/
inductive Triple where
  | basic
  | literal
  deriving DecidableEq, Repr

/-- The delimiter as it is written. -/
def Triple.delimiter : Triple → Text
  | .basic => units "\"\"\""
  | .literal => units "'''"

/-- The loop of `updateTripleState`. `skip` units are still part of a delimiter. -/
def updateTripleFrom : Nat → Option Triple → Text → Option Triple
  | _, inTriple, [] => inTriple
  | skip + 1, inTriple, _ :: content => updateTripleFrom skip inTriple content
  | 0, none, c :: content =>
    if Triple.basic.delimiter.isPrefixOf (c :: content) then updateTripleFrom 2 (some .basic) content
    else if Triple.literal.delimiter.isPrefixOf (c :: content) then
      updateTripleFrom 2 (some .literal) content
    else if c = unit '#' then none
    else updateTripleFrom 0 none content
  | 0, some triple, c :: content =>
    if triple.delimiter.isPrefixOf (c :: content) then updateTripleFrom 2 none content
    else updateTripleFrom 0 (some triple) content

/-- `updateTripleState`. -/
def updateTripleState (content : Text) (state : Option Triple) : Option Triple :=
  updateTripleFrom 0 state content

/-- `indexOf`. -/
def indexOf (pattern : Text) : Text → Option Nat
  | [] => if pattern.isEmpty then some 0 else none
  | c :: s => if pattern.isPrefixOf (c :: s) then some 0 else (indexOf pattern s).map (· + 1)

/-- The header on a line that does not begin inside a string: what is in the brackets, and whether they are double. -/
def headerOf (content : Text) : Except String (Option (Text × Bool)) :=
  let trimmed := content.dropWhile isBlank
  if (units "[[").isPrefixOf trimmed then
    match indexOf (units "]]") trimmed with
    | none => .error "unterminated array-of-tables header"
    | some close => .ok (some ((trimmed.take close).drop 2, true))
  else if (units "[").isPrefixOf trimmed then
    match indexOf (units "]") trimmed with
    | none => .error "unterminated table header"
    | some close => .ok (some ((trimmed.take close).drop 1, false))
  else .ok none

/-- An element of `tables`. -/
structure TableHeader where
  headerIndex : Nat
  bracketContent : Text
  isArrayOfTables : Bool
  deriving DecidableEq, Repr

/-- What the loop of `scanTables` has in hand: `inTriple`, `i` and `tables`. -/
structure Scan where
  inTriple : Option Triple
  index : Nat
  tables : List TableHeader
  deriving DecidableEq, Repr

/-- One pass of the loop of `scanTables`. -/
def scanLine (s : Scan) (line : Text) : Except String Scan :=
  let content := stripLineEnding line
  let inTriple := updateTripleState content s.inTriple
  if s.inTriple.isSome then .ok ⟨inTriple, s.index + 1, s.tables⟩
  else
    match headerOf content with
    | .error e => .error e
    | .ok none => .ok ⟨inTriple, s.index + 1, s.tables⟩
    | .ok (some (bracketContent, isArrayOfTables)) =>
      .ok ⟨inTriple, s.index + 1, s.tables ++ [⟨s.index, bracketContent, isArrayOfTables⟩]⟩

/-- The loop of `scanTables`. -/
def scanFrom (s : Scan) (lines : List Text) : Except String Scan := lines.foldlM scanLine s

/-- `scanTables`. -/
def scanTables (lines : List Text) : Except String (List TableHeader) :=
  match scanFrom ⟨none, 0, []⟩ lines with
  | .error e => .error e
  | .ok s => if s.inTriple.isSome then .error "unterminated multi-line string" else .ok s.tables

/-- `findOwned`. -/
def findOwned (tables : List TableHeader) (tablePath : Text) : Option Nat :=
  tables.findIdx? fun t => !t.isArrayOfTables && t.bracketContent == tablePath

/-- `ownedRegion`. -/
def ownedRegion (tables : List TableHeader) (pos lineCount : Nat) : Nat × Nat :=
  (((tables[pos]?.map TableHeader.headerIndex).getD 0) + 1,
    (tables[pos + 1]?.map TableHeader.headerIndex).getD lineCount)

/-! ## Bodies -/

/-- `l.replace(/\s+$/, "")`. -/
def trimEnd (l : Text) : Text := l.rdropWhile isSpace

/-- `normalizeBody`. -/
def normalizeBody (lines : List Text) : List Text := (lines.map trimEnd).rdropWhile List.isEmpty

/-- `bodyEquals`. -/
def bodyEquals (a b : List Text) : Bool := normalizeBody a == normalizeBody b

/-! ## Reading and writing the table -/

/-- What `readTomlTable` returns. -/
structure TomlTable where
  present : Bool
  body : Text
  malformed : Bool
  deriving DecidableEq, Repr

/-- `lines.slice(start, end)`. -/
def slice (lines : List Text) (region : Nat × Nat) : List Text :=
  (lines.drop region.1).take (region.2 - region.1)

/-- `readTomlTable`. -/
def readTomlTable (raw tablePath : Text) : TomlTable :=
  let lines := splitKeepEndings raw
  match scanTables lines with
  | .error _ => ⟨false, [], true⟩
  | .ok tables =>
    match findOwned tables tablePath with
    | none => ⟨false, [], false⟩
    | some pos => ⟨true, (slice lines (ownedRegion tables pos lines.length)).flatten, false⟩

/-- What `upsertTomlTable` returns. -/
structure Upsert where
  text : Text
  changed : Bool
  malformed : Bool
  deriving DecidableEq, Repr

/-- What `upsertTomlTable` appends to a file without the table. -/
def appended (raw tablePath nl : Text) (desiredBody : List Text) : Text :=
  let prefixed := if raw.isEmpty || nl.isSuffixOf raw then raw else raw ++ nl
  let sep := if raw.isEmpty || endsWithBlankLine prefixed then [] else nl
  prefixed ++ sep ++ (units "[" ++ tablePath ++ units "]" ++ nl) ++ desiredBody.flatten

/-- `upsertTomlTable`. -/
def upsertTomlTable (raw tablePath : Text) (bodyLines : List Text) : Upsert :=
  let lines := splitKeepEndings raw
  match scanTables lines with
  | .error _ => ⟨raw, false, true⟩
  | .ok tables =>
    let nl := dominantLineEnding raw
    let desiredBody := bodyLines.map (· ++ nl)
    match findOwned tables tablePath with
    | some pos =>
      let region := ownedRegion tables pos lines.length
      if bodyEquals (slice lines region) desiredBody then ⟨raw, false, false⟩
      else ⟨(lines.take region.1 ++ desiredBody ++ lines.drop region.2).flatten, true, false⟩
    | none => ⟨appended raw tablePath nl desiredBody, true, false⟩

/-! ## What is emitted -/

/-- A digit of `code.toString(16)`. -/
def hexDigit (n : UInt16) : UInt16 := if n < 10 then unit '0' + n else unit 'a' + (n - 10)

/-- The escape of one unit in `tomlString`. -/
def escape (c : UInt16) : Text :=
  if c = unit '\\' then units "\\\\"
  else if c = unit '"' then units "\\\""
  else if c = 0x08 then units "\\b"
  else if c = unit '\t' then units "\\t"
  else if c = unit '\n' then units "\\n"
  else if c = 0x0C then units "\\f"
  else if c = unit '\r' then units "\\r"
  else if c < 0x20 ∨ c = 0x7F then units "\\u00" ++ [hexDigit (c / 16), hexDigit (c % 16)]
  else [c]

/-- `tomlString`. -/
def tomlString (s : Text) : Text := units "\"" ++ s.flatMap escape ++ units "\""

/-- The transports `buildTomlEmit` emits a table for. -/
inductive Transport where
  | stdioBinary (binaryPath : Text)
  | stdioBridge (bridgePath projectHash : Text)

/-- `buildTomlEmit`: `bodyLines`. -/
def buildTomlEmit : Transport → List Text
  | .stdioBinary binaryPath => [units "command = " ++ tomlString binaryPath]
  | .stdioBridge bridgePath projectHash =>
    [units "command = \"node\"",
      units "args = [" ++ tomlString bridgePath ++ units ", " ++ tomlString projectHash ++ units "]"]

end Unimatrix.CodexInstall
