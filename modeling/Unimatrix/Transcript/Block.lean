import Mathlib.Data.List.ReduceOption
import Mathlib.Data.List.Sort
import Unimatrix.Hook.TopicSignal
import Unimatrix.Lib.HashMap
import Unimatrix.Lib.Json
import Unimatrix.Lib.Lines

/-!
# The restoration block

Model of `transcript.js` and of `transcript_block.rs` it is a port of. Both turn the lines of a transcript window into
turns and print the newest that fit; the code is the same but for what the languages bring with them, so there is one
pipeline with that as a parameter (`Language`):

* the whitespace that `trim` takes away (`/\s/u` and `char::is_whitespace`);
* the JSON parser: `JSON.parse` accepts the grammar, `serde_json` refuses a value nested deeper than 127, a string
  with a lone surrogate, and a number that no `f64` holds (which are those is a parameter, `inRange`);
* the order of an object's fields: `Object.keys` has the array indices first, `preserve_order` keeps the written one.

`Js.extractTranscriptBlock`, `Rust.extractTranscriptBlock` and `Rust.extractTranscriptBlockFromBytes` are the front
ends, on the bytes of a window: they cut it into lines and differ in what they do with a line that is not UTF-8.

A string is its code points. The file system is not modelled: a window is what the readers have read.
-/

namespace Unimatrix.TranscriptBlock

open Utf8 Json

/-! ## Constants -/

/-- `MAX_PRECOMPACT_BYTES`. -/
def maxPrecompactBytes : Nat := 3000

/-- `TOOL_RESULT_SNIPPET_BYTES`. -/
def toolResultSnippetBytes : Nat := 300

/-- `TOOL_KEY_PARAM_BYTES`. -/
def toolKeyParamBytes : Nat := 120

/-- `KEY_PARAM_FIELDS`. -/
def keyParamFields : List (String × String) :=
  [("Bash", "command"), ("Read", "file_path"), ("Edit", "file_path"), ("Write", "file_path"),
    ("Glob", "pattern"), ("Grep", "pattern"), ("MultiEdit", "file_path"), ("Task", "description"),
    ("WebFetch", "url"), ("WebSearch", "query")]

/-! ## Strings -/

/-- The bytes of a string; a lone surrogate is replaced. -/
def utf8 (s : Text) : List UInt8 :=
  encode <| s.map fun p => match p with
    | .scalar c => c
    | .lone _ => replacement

/-- `Buffer.byteLength`, `str::len`. -/
def byteLength (s : Text) : Nat := (utf8 s).length

/-- `(b & 0xc0) === 0x80`. -/
def isCont (b : UInt8) : Bool := b &&& 0xc0 == 0x80

/-- The loop of `truncateUtf8`. -/
def backOff (buf : List UInt8) : Nat → Nat
  | 0 => 0
  | i + 1 => if isCont (buf.getD (i + 1) 0) then backOff buf i else i + 1

/-- `truncateUtf8`. -/
def truncateUtf8 (s : Text) (maxBytes : Nat) : Text :=
  let buf := utf8 s
  if buf.length ≤ maxBytes then s else (decode (buf.take (backOff buf maxBytes))).map .scalar

/-- `texts.join("\n")`. -/
def joinLines (texts : List Text) : Text := (text "\n").intercalate texts

/-! ## Records -/

/-- A field that is a string. -/
def getString (v : Value) (name : String) : Option Text := (v.get name).bind Value.asString

/-- The `type` of a record or a block. -/
def hasType (v : Value) (name : String) : Prop := getString v "type" = some (text name)

instance (v : Value) (name : String) : Decidable (hasType v name) :=
  inferInstanceAs (Decidable (getString v "type" = some (text name)))

/-- `getContentArray`. -/
def getContentArray (record : Value) : List Value :=
  match ((record.get "message").bind fun m => m.get "content").bind Value.asArray with
  | some items => items
  | none => ((record.get "content").bind Value.asArray).getD []

/-- The text of a block that is one. -/
def textOf (block : Value) : Option Text := if hasType block "text" then getString block "text" else none

/-- `textBlocks`. -/
def textBlocks (content : List Value) : List Text := content.filterMap textOf

/-- `extractToolResultSnippet`. -/
def extractToolResultSnippet (block : Value) : Text :=
  match block.get "content" with
  | some (.string s) => truncateUtf8 s toolResultSnippetBytes
  | some (.array blocks) =>
    match blocks.findSome? textOf with
    | some s => truncateUtf8 s toolResultSnippetBytes
    | none => []
  | _ => []

/-- The id and the snippet of a block that is a tool's result. -/
def toolResult (block : Value) : Option (Text × Text) :=
  if hasType block "tool_result" then
    (getString block "tool_use_id").map fun id => (id, extractToolResultSnippet block)
  else none

/-- A tool call. -/
structure ToolUse where
  id : Text
  name : Text
  keyParam : Text
  deriving DecidableEq

/-- `ExchangeTurn`. -/
inductive Turn where
  | user (s : Text)
  | assistant (s : Text)
  | tool (name keyParam resultSnippet : Text)
  deriving DecidableEq

/-- The turn of a user record. -/
def userTurns (record : Value) : List Turn :=
  let userTexts := textBlocks (getContentArray record)
  if userTexts = [] then [] else [.user (joinLines userTexts)]

/-- `formatTurn`. -/
def formatTurn : Turn → Text
  | .user s => text "[User] " ++ s
  | .assistant s => text "[Assistant] " ++ s
  | .tool name keyParam resultSnippet =>
    text "[tool: " ++ name ++ text "(" ++ keyParam ++ text ") → " ++ resultSnippet ++ text "]"

/-- Whether a turn counts as an exchange. -/
def Turn.isUser : Turn → Bool
  | .user _ => true
  | _ => false

/-! ## The pipeline -/

/-- What a language brings with it. -/
structure Language where
  isWhitespace : Char → Bool
  dialect : Dialect
  entries : List (Text × Value) → List (Text × Value)

/-- The field that the table names for a tool. -/
def keyParamField (toolName : Text) : Option String :=
  (keyParamFields.find? fun p => text p.1 = toolName).map Prod.snd

/-- The string of the field that is named for the tool. -/
def namedParam (toolName : Text) (input : Value) : Option Text :=
  (keyParamField toolName).bind fun field => getString input field

/-- The first string among some fields. -/
def firstString (fields : List (Text × Value)) : Option Text := fields.findSome? fun f => f.2.asString

namespace Language

variable (L : Language)

/-- `extractKeyParam`: the named field, or else the first string. -/
def extractKeyParam (toolName : Text) (input : Value) : Text :=
  match namedParam toolName input with
  | some s => truncateUtf8 s toolKeyParamBytes
  | none =>
    match input.asObject.bind fun fields => firstString (L.entries fields) with
    | some s => truncateUtf8 s toolKeyParamBytes
    | none => []

/-- The tool call that a block is. -/
def toolUse (block : Value) : Option ToolUse :=
  if hasType block "tool_use" then
    (getString block "id").bind fun id =>
      (getString block "name").map fun name =>
        ⟨id, name, L.extractKeyParam name ((block.get "input").getD .null)⟩
  else none

/-- A line, if it is not blank and can be parsed. -/
def readLine (line : List Char) : Option Value :=
  if line.all L.isWhitespace then none else parse L.dialect line

/-- `resultMap`: the results that the next line has. -/
def resultMap (next : Option (List Char)) : HashMap Text Text :=
  match next.bind L.readLine with
  | some record =>
    if hasType record "user" then HashMap.collect ((getContentArray record).filterMap toolResult) else ∅
  | none => ∅

/-- The turns of an assistant record: its text, and its tool calls with the results that the next line has. -/
def assistantTurns (record : Value) (next : Option (List Char)) : List Turn :=
  let content := getContentArray record
  let asstTexts := textBlocks content
  (if asstTexts = [] then [] else [.assistant (joinLines asstTexts)]) ++
    (content.filterMap L.toolUse).map fun tu => .tool tu.name tu.keyParam (((L.resultMap next).lookup tu.id).getD [])

/-- The turns of a line. -/
def lineTurns (line : List Char) (next : Option (List Char)) : List Turn :=
  match L.readLine line with
  | none => []
  | some record =>
    if hasType record "user" then userTurns record
    else if hasType record "assistant" then L.assistantTurns record next
    else []

/-- The loop of `buildExchangePairs`. -/
def turns : List (List Char) → List Turn
  | [] => []
  | line :: rest => L.lineTurns line rest.head? ++ turns rest

/-- `buildExchangePairs`. -/
def buildExchangePairs (lines : List (List Char)) : List Turn := (L.turns lines).reverse

end Language

/-- The turns that fit, when `bytesUsed` are used. -/
def takeFitting : Nat → List Turn → List Turn
  | _, [] => []
  | bytesUsed, turn :: turns =>
    let turnBytes := byteLength (formatTurn turn)
    if maxPrecompactBytes < bytesUsed + turnBytes then [] else turn :: takeFitting (bytesUsed + turnBytes) turns

/-- `blockFromLines`. -/
def Language.blockFromLines (L : Language) (lines : List (List Char)) : Option Text :=
  let output := takeFitting 0 (L.buildExchangePairs lines)
  if output = [] then none
  else
    some (text "=== Recent conversation (last " ++ (Nat.toDigits 10 (output.countP Turn.isUser)).map .scalar ++
      text " exchanges) ===\n" ++ joinLines (output.map formatTurn) ++ text "\n=== End recent conversation ===")

/-! ## The two languages -/

/-- The array index that a name is. -/
def arrayIndex (name : Text) : Option Nat :=
  let n := name.foldl (fun n p => match p with
    | .scalar c => n * 10 + (c.toNat - '0'.toNat)
    | .lone _ => n) 0
  if (Nat.toDigits 10 n).map .scalar = name ∧ n < 2 ^ 32 - 1 then some n else none

/-- The order of `Object.keys`. -/
def objectKeys (fields : List (Text × Value)) : List (Text × Value) :=
  (fields.filter fun f => (arrayIndex f.1).isSome).insertionSort
      (fun f g => (arrayIndex f.1).getD 0 ≤ (arrayIndex g.1).getD 0) ++
    fields.filter fun f => (arrayIndex f.1).isNone

/-- JavaScript. -/
def js : Language := ⟨TopicSignal.isJsWhitespace, ⟨none, true, fun _ => true⟩, objectKeys⟩

/-- Rust, where `inRange` are the numbers that an `f64` holds. -/
def rust (inRange : List Char → Bool) : Language :=
  ⟨TopicSignal.isRustWhitespace, ⟨some 127, false, inRange⟩, id⟩

/-- The text of some bytes, if they are UTF-8. -/
def ofUtf8 (bytes : List UInt8) : Option (List Char) :=
  let s := decode bytes
  if encode s = bytes then some s else none

namespace Js

/-- `splitLinesLikeBufRead`: a line that is not UTF-8 is dropped. -/
def splitLinesLikeBufRead (buf : List UInt8) : List (List Char) := (Lines.lines 0x0A 0x0D buf).filterMap ofUtf8

/-- `extractTranscriptBlock`. -/
def extractTranscriptBlock (window : List UInt8) : Option Text :=
  js.blockFromLines (splitLinesLikeBufRead window)

end Js

namespace Rust

variable (inRange : List Char → Bool)

/-- `reader.lines().map_while(Result::ok)`: a line that is not UTF-8 ends the reading. -/
def bufReadLines (window : List UInt8) : List (List Char) :=
  (((Lines.lines 0x0A 0x0D window).map ofUtf8).takeWhile Option.isSome).reduceOption

/-- `extract_transcript_block`. -/
def extractTranscriptBlock (window : List UInt8) : Option Text :=
  (rust inRange).blockFromLines (bufReadLines window)

/-- `extract_transcript_block_from_bytes`. -/
def extractTranscriptBlockFromBytes (bytes : List UInt8) : Option Text :=
  (rust inRange).blockFromLines (Lines.lines '\n' '\r' (decode bytes))

end Rust

end Unimatrix.TranscriptBlock
