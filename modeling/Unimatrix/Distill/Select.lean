import Mathlib.Data.Char
import Mathlib.Data.List.Infix
import Mathlib.Data.List.Lex
import Mathlib.Data.Prod.Lex
import Unimatrix.Distill.Timestamp
import Unimatrix.Lib.StableSort
import Unimatrix.Transcript.Block

/-!
# Candidates of a session

Model of `distill/jsonl.rs`, `distill/select.rs` and `distill/reconstruct.rs`: the blocks that the bytes of a transcript have
and which of them are candidates, and the candidates that are made of a session's observations instead.

* What comes from other crates is `Crates`: the numbers that `serde_json` holds and how it writes a value, the four compiled
  marker sets, the hash of a text, and lower case.
* A buffer is shorter than 2⁶⁴ bytes and the texts together are, so sums of lengths are plain and `usize::MAX` is no cap
  (`none`).
-/

namespace Unimatrix.Distill

open Json TranscriptBlock

/-- What other crates do. -/
structure Crates where
  inRange : List Char → Bool
  decision : Str → Bool
  rework : Str → Bool
  lesson : Str → Bool
  phasegate : Str → Bool
  hashText : Str → UInt64
  toLowercase : Str → Str
  display : Value → Str
  /-- `compile_bounded_regex` and `is_match`. -/
  compileBoundedRegex : Str → Option (Str → Bool)

/-- `str::len`. -/
def len (s : Str) : Nat := (Utf8.encode s).length

/-! ## Blocks -/

/-- `MAX_LINE_BYTES`. -/
def maxLineBytes : Nat := 1024 * 1024

/-- `MAX_JSON_DEPTH`. -/
def maxJsonDepth : Nat := 64

/-- `MAX_TEXT_BYTES`. -/
def maxTextBytes : Nat := maxLineBytes

/-- `Role`. -/
inductive Role where
  | user
  | assistant
  deriving DecidableEq, Repr

/-- `ParsedBlock`. -/
structure ParsedBlock where
  role : Role
  text : Str
  ts : Option Str
  byteOffset : Nat
  deriving DecidableEq, Repr

/-- The string a text is; `serde_json` leaves no lone surrogate in one. -/
def toStr (s : Text) : Str := s.filterMap fun p => match p with
  | .scalar c => some c
  | .lone _ => none

/-- `Value::as_str`. -/
def asStr (v : Value) : Option Str := v.asString.map toStr

/-- `record_role`. -/
def recordRole (record : Value) : Option Role :=
  let ty := ((record.get "type").bind asStr).or
    (((record.get "message").bind fun m => m.get "role").bind asStr)
  if ty = some "user".toList then some .user
  else if ty = some "assistant".toList then some .assistant
  else none

/-- `extract_ts`. -/
def extractTs (record : Value) : Option Str := (record.get "timestamp").bind asStr

/-- The longest prefix on a character boundary that has at most `n` bytes. -/
def floorChars : Nat → Str → Str
  | _, [] => []
  | n, c :: s => if c.utf8Size ≤ n then c :: floorChars (n - c.utf8Size) s else []

/-- `push_bounded`. -/
def pushBounded (out s : Str) : Str :=
  let out := if out.isEmpty then out else out ++ ['\n']
  let remaining := maxTextBytes - len out
  if len s ≤ remaining then out ++ s else out ++ floorChars remaining s

/-- The loop of `collect_text` over the items of an array. -/
def collectItems (collect : Value → Str → Option Str) : List Value → Str → Option Str
  | [], out => some out
  | item :: items, out =>
    if maxTextBytes ≤ len out then some out
    else
      match item with
      | .object _ =>
        let isText := (item.get "type").bind asStr = some "text".toList
        match ((item.get "text").bind asStr).filter fun _ => decide isText with
        | some t => collectItems collect items (pushBounded out t)
        | none => collectItems collect items out
      | .string s => collectItems collect items (pushBounded out (toStr s))
      | .array _ => (collect item out).bind fun out => collectItems collect items out
      | _ => collectItems collect items out

/-- `collect_text`, where `left` is how much deeper it may go, and 0 if it is too deep. -/
def collectText : Nat → Value → Str → Option Str
  | 0, _, _ => none
  | left + 1, v, out =>
    if maxTextBytes ≤ len out then some out
    else
      match v with
      | .string s => some (pushBounded out (toStr s))
      | .array items => collectItems (collectText left) items out
      | _ => some out

/-- `extract_text`. -/
def extractText (record : Value) : Option Str :=
  ((record.get "message").bind fun m => m.get "content").bind fun content =>
    collectText (maxJsonDepth + 1) content []

/-- The block of a line, and whether the line is counted as skipped. -/
def parseLine (crates : Crates) (line : List UInt8) (lineOffset : Nat) : Option ParsedBlock × Bool :=
  if line.isEmpty then (none, false)
  else if maxLineBytes < line.length then (none, true)
  else
    match (ofUtf8 line).bind (parse (rust crates.inRange).dialect) with
    | none => (none, true)
    | some record =>
      match recordRole record, extractText record with
      | some role, some text =>
        if text.isEmpty then (none, false) else (some ⟨role, text, extractTs record, lineOffset⟩, false)
      | _, _ => (none, false)

/-- The loop of `parse_blocks` over the lines, of which the next begins at `offset`. -/
def parseLines (crates : Crates) : Nat → List (List UInt8) → List ParsedBlock × Nat
  | _, [] => ([], 0)
  | offset, line :: lines =>
    let (block, skipped) := parseLine crates line offset
    let (blocks, skip) := parseLines crates (offset + line.length + 1) lines
    (block.toList ++ blocks, if skipped then skip + 1 else skip)

/-- `parse_blocks`. -/
def parseBlocks (crates : Crates) (bytes : List UInt8) : List ParsedBlock × Nat :=
  parseLines crates 0 (bytes.splitOn (byte '\n'))

/-! ## Selection -/

/-- `FamilyHint`. -/
inductive FamilyHint where
  | decision
  | rework
  | lesson
  | phaseGate
  deriving DecidableEq, Repr

/-- `TranscriptCandidate`. -/
structure TranscriptCandidate where
  sessionId : Str
  byteOffset : Nat
  ts : Option Str
  familyHints : List FamilyHint
  text : Str
  deriving DecidableEq, Repr

/-- `match_families`. -/
def matchFamilies (crates : Crates) (text : Str) : List FamilyHint :=
  (if crates.decision text then [.decision] else []) ++ (if crates.rework text then [.rework] else []) ++
    (if crates.lesson text then [.lesson] else []) ++ (if crates.phasegate text then [.phaseGate] else [])

/-- `dedup_stable`; `seen` is the set. -/
def dedupStable (crates : Crates) : List (Str × Nat × UInt64) → List TranscriptCandidate → List TranscriptCandidate
  | _, [] => []
  | seen, c :: candidates =>
    let key := (c.sessionId, c.byteOffset, crates.hashText c.text)
    if key ∈ seen then dedupStable crates seen candidates
    else c :: dedupStable crates (key :: seen) candidates

/-- The order of `(ts, session_id, byte_offset)`, where a candidate without a `ts` comes last. -/
def chronological (c : TranscriptCandidate) : (Bool ×ₗ Str) ×ₗ Str ×ₗ Nat :=
  toLex (toLex (c.ts.isNone, c.ts.getD []), toLex (c.sessionId, c.byteOffset))

/-- `keep_earliest_within`, of which `total` bytes are kept. -/
def keepEarliestFrom (cap : Option Nat) : Nat → List TranscriptCandidate → List TranscriptCandidate
  | _, [] => []
  | total, c :: candidates =>
    let next := total + len c.text
    if ∃ n ∈ cap, n < next then [] else c :: keepEarliestFrom cap next candidates

/-- `keep_earliest_within`. -/
def keepEarliestWithin (candidates : List TranscriptCandidate) (cap : Option Nat) : List TranscriptCandidate :=
  keepEarliestFrom cap 0 candidates

/-- `select_candidates`. -/
def selectCandidates (crates : Crates) (bytes : List UInt8) (sessionId : Str) (baseOffset : Nat)
    (sessionCap : Option Nat) : List TranscriptCandidate :=
  let matched := (parseBlocks crates bytes).1.filterMap fun b =>
    let hints := matchFamilies crates b.text
    if hints.isEmpty then none else some ⟨sessionId, baseOffset + b.byteOffset, b.ts, hints, b.text⟩
  keepEarliestWithin (StableSort.sortBy chronological (dedupStable crates [] matched)) sessionCap

/-! ## Reconstruction -/

/-- `ObservationRecord`: what is read of it. -/
structure ObservationRecord where
  ts : Nat
  eventType : Str
  sessionId : Str
  tool : Option Str
  input : Option Value
  responseSnippet : Option Str

/-- `MAX_SNIPPET_CHARS`. -/
def maxSnippetChars : Nat := 500

/-- `observation_topic_source`: the record has no such column. -/
def observationTopicSource (_ : ObservationRecord) : Option Str := none

/-- `topic_source_rank`. -/
def topicSourceRank (topicSource : Option Str) : Nat :=
  if topicSource = some "declared".toList then 0
  else if topicSource = some "registry-fill".toList then 1
  else if topicSource = some "extracted".toList then 2
  else if topicSource = some "vote".toList then 3
  else 4

/-- `compose_reconstructed_text`. -/
def composeReconstructedText (crates : Crates) (o : ObservationRecord) : Str :=
  let rendered := o.input.map fun input => (asStr input).getD (crates.display input)
  ['\n'].intercalate <| ["event: ".toList ++ o.eventType] ++
    (o.tool.map fun tool => "tool: ".toList ++ tool).toList ++
    ((rendered.filter fun s => !s.isEmpty).map fun s => "input: ".toList ++ s.take maxSnippetChars).toList ++
    ((o.responseSnippet.filter fun s => !s.isEmpty).map fun s => "response: ".toList ++ s.take maxSnippetChars).toList

/-- The keywords of `infer_family_hints`. -/
def keywords : FamilyHint → List String
  | .decision => ["decided", "decision", "chose", "we will", "adr", "trade-off"]
  | .rework => ["rework", "revert", "redo", "broke", "regression", "fix the"]
  | .lesson => ["lesson", "learned", "gotcha", "pitfall", "next time"]
  | .phaseGate => ["phase", "gate", "cycle_", "milestone", "checkpoint", "pass/fail"]

/-- `infer_family_hints`. -/
def inferFamilyHints (crates : Crates) (text : Str) : List FamilyHint :=
  let lower := crates.toLowercase text
  [.decision, .rework, .lesson, .phaseGate].filter fun hint => (keywords hint).any fun k => k.toList <:+: lower

/-- `default_family_hint_for`. -/
def defaultFamilyHintFor (o : ObservationRecord) : FamilyHint :=
  if "cycle_".toList <+: o.eventType then .phaseGate else .decision

/-- `format_ts`. -/
def formatTs (ts : Nat) : Str := (Nat.toDigits 10 ts).leftpad 20 '0'

/-- `reconstruct_from_observations`. -/
def reconstructFromObservations (crates : Crates) (sessionId : Str) (obs : List ObservationRecord)
    (sessionCap : Option Nat) : List TranscriptCandidate :=
  let rows := StableSort.sortBy (fun o => topicSourceRank (observationTopicSource o))
    (obs.filter fun o => o.sessionId = sessionId)
  let candidates := rows.map fun o =>
    let text := composeReconstructedText crates o
    let hints := inferFamilyHints crates text
    ⟨sessionId, 0, some (formatTs o.ts), if hints.isEmpty then [defaultFamilyHintFor o] else hints, text⟩
  keepEarliestWithin
    (StableSort.sortBy (fun c : TranscriptCandidate => toLex (c.ts.getD [], c.byteOffset)) candidates) sessionCap

end Unimatrix.Distill
