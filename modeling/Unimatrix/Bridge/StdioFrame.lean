import Unimatrix.Install.Text
import Unimatrix.Lib.Chunks
import Unimatrix.Lib.Json
import Unimatrix.Lib.Words

/-!
# Messages on standard input

Model of `StdioFramer` of `stdio-frame.js`: what arrives is cut into lines, and each line that is not blank is a message
or an error.

* A string is its code units. `JSON.parse` is the parameter `parse`; `none` where it throws.
* `cb` is called for its effect; it is `async` and throws nothing. `write` catches what `stdout` throws.

`calls` are the calls of `cb` and of `write` with their arguments, in order. **`feed_chunking`**: they are the same however
what arrives is cut, and what is left in the buffer is the text behind the last `\n`.
-/

namespace Unimatrix.StdioFrame

open Install

/-- A call that the framer makes. -/
inductive Call (μ : Type) where
  | cb (msg : μ)
  | write (obj : Json.Value)

/-- `PARSE_ERROR`, as it is written. -/
def parseErrorCode : List Char := "-32700".toList

/-- The object that answers a line which is no JSON. -/
def parseErrorObject : Json.Value :=
  .object [(Json.text "jsonrpc", .string (Json.text "2.0")), (Json.text "id", .null),
    (Json.text "error", .object [(Json.text "code", .number parseErrorCode),
      (Json.text "message", .string (Json.text "parse error"))])]

/-- `StdioFramer`: whether `cb` is set, the buffer, and what was called. -/
structure StdioFramer (μ : Type) where
  cb : Bool
  buffer : Text
  calls : List (Call μ)

variable {μ : Type} (parse : Text → Option μ)

/-- A framer to which nothing has arrived. -/
def StdioFramer.new (cb : Bool) : StdioFramer μ := ⟨cb, [], []⟩

/-- What becomes of a line. -/
def lineCalls (cb : Bool) (line : Text) : List (Call μ) :=
  if Words.trim isSpace line = [] then []
  else
    match parse line with
    | none => [.write parseErrorObject]
    | some msg => if cb then [.cb msg] else []

/-- The loop of `_feed`. -/
def StdioFramer.drain (s : StdioFramer μ) : StdioFramer μ :=
  match _h : s.buffer.idxOf? (unit '\n') with
  | none => s
  | some idx =>
    StdioFramer.drain { s with
      buffer := s.buffer.drop (idx + 1)
      calls := s.calls ++ lineCalls parse s.cb (s.buffer.take idx) }
termination_by s.buffer.length
decreasing_by
  obtain ⟨hlt, -⟩ := List.idxOf?_eq_some_iff.mp _h
  rw [List.length_drop]
  omega

/-- `_feed`. -/
def StdioFramer.feed (s : StdioFramer μ) (chunk : Text) : StdioFramer μ :=
  StdioFramer.drain parse { s with buffer := s.buffer ++ chunk }

/-! ## One chunk -/

variable {parse}

/-- **The loop takes the lines off the buffer.** -/
theorem StdioFramer.drain_eq (s : StdioFramer μ) :
    s.drain parse = { s with
      buffer := (Chunks.cutFrom (unit '\n') [] s.buffer).2
      calls := s.calls ++ (Chunks.cutFrom (unit '\n') [] s.buffer).1.flatMap (lineCalls parse s.cb) } := by
  fun_induction StdioFramer.drain parse s with
  | case1 s h =>
    have hcut := Chunks.cutFrom_of_notMem (List.idxOf?_eq_none_iff.mp h) []
    rw [hcut]
    simp
  | case2 s idx h ih =>
    rw [ih, Chunks.cutFrom_of_idxOf? h]
    simp only [List.flatMap_cons, List.append_assoc]

/-- **Two chunks.** -/
theorem StdioFramer.feed_append (s : StdioFramer μ) (xs ys : Text) :
    (s.feed parse xs).feed parse ys = s.feed parse (xs ++ ys) := by
  unfold StdioFramer.feed
  rw [StdioFramer.drain_eq, StdioFramer.drain_eq, StdioFramer.drain_eq]
  dsimp only
  rw [← List.append_assoc, Chunks.cutFrom_append [] (s.buffer ++ xs), Chunks.cutFrom_rest]
  dsimp only
  rw [List.flatMap_append, List.append_assoc]

/-! ## Any number of chunks -/

theorem StdioFramer.feed_nil (cb : Bool) : (StdioFramer.new cb).feed parse [] = StdioFramer.new cb := by
  unfold StdioFramer.feed
  rw [StdioFramer.drain_eq]
  rfl

variable (parse)

/-- **However a text is cut, the framer makes the calls that it makes on the whole text**, and what it keeps is the text
behind the last `\n`. -/
theorem feed_chunking (cb : Bool) (chunks : List Text) :
    (chunks.foldl (StdioFramer.feed parse) (.new cb)).calls = ((StdioFramer.new cb).feed parse chunks.flatten).calls ∧
      (chunks.foldl (StdioFramer.feed parse) (.new cb)).buffer = chunks.flatten.rtakeWhile (· ≠ unit '\n') := by
  have hall : chunks.foldl (StdioFramer.feed parse) (.new cb) = (StdioFramer.new cb).feed parse chunks.flatten := by
    cases chunks with
    | nil => exact (StdioFramer.feed_nil cb).symm
    | cons chunk chunks => exact Chunks.foldl_flatten StdioFramer.feed_append (.new cb) chunk chunks
  rw [hall]
  refine ⟨rfl, ?_⟩
  unfold StdioFramer.feed
  rw [StdioFramer.drain_eq]
  exact Chunks.cutFrom_snd chunks.flatten

/-- A line that ends with CRLF, a blank one, one that is no JSON, and one that has not ended. -/
example : ((StdioFramer.new true).feed (fun line => if line = units "1\r" then some () else none)
    (units "1\r\n \nx\n1\r")).calls = [.cb (), .write parseErrorObject] := by
  unfold StdioFramer.feed
  rw [StdioFramer.drain_eq]
  rfl

end Unimatrix.StdioFrame
