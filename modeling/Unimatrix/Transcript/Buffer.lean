import Mathlib.Data.Fintype.Pi
import Unimatrix.Lib.Intervals
import Unimatrix.Lib.Machine

/-!
# `TranscriptBuffer`: the per-session transcript accumulator

Model of `infra/session_transcript.rs` (`TranscriptBuffer`: `apply_delta`, `contiguous_tail`,
`snapshot`, `clear` and their helpers) and of the fold of `infra/transcript_activity.rs` that every
accepted delta runs.

* A `u64` or `usize` is a natural number and a byte string a `List UInt8`. An operation that Rust
  would panic on (a `u64` subtraction below zero, a drain or a slice past the end) returns `none`,
  so `applyDelta b o bs = some b'` says that the call returned. On the 64-bit targets the conversion
  `as usize` of a `u64` changes nothing, so it is not written.
* `checkedAdd` drops a delta whose end overflows; an `offset` past `u64::MAX`, which no caller can
  pass, is dropped the same way.
* The compiled `RegexSet` of `SignatureScanner` comes from a crate: `scan` is the function it
  computes, any function from bytes to class indices below `MAX_SIGNAL_CLASSES`.

`Lib/Intervals.lean` holds the interval lists: `subtractRangeFromHoles` is the loop of
`subtract_range_from_holes` and equals `Intervals.subtract`; the `retain_mut` of `advance_base` is
`Intervals.trimBelow`.
-/

namespace Unimatrix

open Machine

/-! ## The activity fold -/

/-- `MAX_SIGNAL_CLASSES`. -/
def maxSignalClasses : Nat := 16

/-- `SignatureScanner`: the classes a delta's bytes match, ascending and without duplicates. -/
structure SignatureScanner where
  scan : List UInt8 → List (Fin maxSignalClasses)

/-- `SignatureScanner::empty`. -/
def SignatureScanner.empty : SignatureScanner := ⟨fun _ => []⟩

/-- `ActivityCounters`. -/
structure ActivityCounters where
  bytesTotal : Nat
  deltaCount : Nat
  classCounts : Fin maxSignalClasses → Nat
  deriving DecidableEq

/-- `ActivityCounters::new`. -/
def ActivityCounters.new : ActivityCounters := ⟨0, 0, fun _ => 0⟩

/-- `ActivityCounters::fold`: every matched class counts once per delta. -/
def ActivityCounters.fold (a : ActivityCounters) (bytes : List UInt8)
    (scanner : SignatureScanner) : ActivityCounters where
  bytesTotal := satAdd a.bytesTotal bytes.length
  deltaCount := satAdd32 a.deltaCount 1
  classCounts := (scanner.scan bytes).foldl
    (fun counts i => Function.update counts i (satAdd32 (counts i) 1)) a.classCounts

/-! ## The buffer -/

/-- `MAX_HOLE_RANGES`. -/
def maxHoleRanges : Nat := 64

/-- `TranscriptBuffer`. -/
structure TranscriptBuffer where
  /-- Logical offset of `data[0]`. -/
  baseOffset : Nat
  data : List UInt8
  /-- Unwritten sub-ranges of the span, as `(start, end)`. -/
  holes : List (Nat × Nat)
  highWater : Nat
  elidedBytes : Nat
  maxBytes : Nat
  activity : ActivityCounters
  scanner : SignatureScanner

/-- `TranscriptSnapshot`; a `HoleInfo` is a pair. -/
structure TranscriptSnapshot where
  bytes : List UInt8
  baseOffset : Nat
  highWater : Nat
  elidedBytes : Nat
  holes : List (Nat × Nat)
  deriving DecidableEq, Repr

namespace TranscriptBuffer

/-- `TranscriptBuffer::new`. -/
def new (maxBytes : Nat) (scanner : SignatureScanner) : TranscriptBuffer where
  baseOffset := 0
  data := []
  holes := []
  highWater := 0
  elidedBytes := 0
  maxBytes := maxBytes
  activity := ActivityCounters.new
  scanner := scanner

/-- `span_end`, as every helper computes it. -/
def spanEnd (b : TranscriptBuffer) : Nat := satAdd b.baseOffset b.data.length

/-- `self.activity.fold(bytes, &self.scanner)`. -/
def foldActivity (b : TranscriptBuffer) (bytes : List UInt8) : TranscriptBuffer :=
  { b with activity := b.activity.fold bytes b.scanner }

/-- `total_hole_bytes`. -/
def totalHoleBytes (b : TranscriptBuffer) : Option Nat :=
  b.holes.foldlM (fun acc hole => (subOr hole.2 hole.1).map (satAdd acc)) 0

/-- `advance_base`: raise the floor to `newBase`, dropping what lies below it. -/
def advanceBase (b : TranscriptBuffer) (newBase : Nat) : Option TranscriptBuffer :=
  if b.spanEnd ≤ newBase then do
    -- the whole span is dropped
    let holeBytes ← b.totalHoleBytes
    some { b with
      elidedBytes := satAdd b.elidedBytes (b.data.length - holeBytes)
      data := []
      holes := []
      baseOffset := newBase }
  else do
    let dropLen ← subOr newBase b.baseOffset
    let holeBytesBelow := (b.holes.map fun hole =>
      min hole.2 newBase - max hole.1 b.baseOffset).foldl satAdd 0
    let data ← drainTo b.data dropLen
    some { b with
      elidedBytes := satAdd b.elidedBytes (dropLen - holeBytesBelow)
      data := data
      holes := b.holes.filterMap fun hole =>
        if hole.2 ≤ newBase then none else some (max hole.1 newBase, hole.2)
      baseOffset := newBase }

/-- `subtract_range_from_holes`: the five cases of its loop. -/
def subtractRangeFromHoles (holes : List (Nat × Nat)) (start stop : Nat) : List (Nat × Nat) :=
  holes.flatMap fun hole =>
    if hole.2 ≤ start ∨ stop ≤ hole.1 then [hole]
    else if start ≤ hole.1 ∧ hole.2 ≤ stop then []
    else if start ≤ hole.1 then [(stop, hole.2)]
    else if hole.2 ≤ stop then [(hole.1, start)]
    else [(hole.1, start), (stop, hole.2)]

/-- `collapse_to_newest`: keep what follows the last hole. -/
def collapseToNewest (b : TranscriptBuffer) : Option TranscriptBuffer :=
  match b.holes.getLast? with
  | none => some b
  | some lastHole => do
    let dropped ← subOr lastHole.2 b.baseOffset
    let holeBytes ← b.totalHoleBytes
    let data ← drainTo b.data dropped
    some { b with
      elidedBytes := satAdd b.elidedBytes (dropped - holeBytes)
      data := data
      holes := []
      baseOffset := lastHole.2 }

/-- Step 1 of `apply_delta`: make room for a delta that ends at `stop`. -/
def ringTail (b : TranscriptBuffer) (stop : Nat) : Option TranscriptBuffer :=
  let requiredBase := stop - b.maxBytes
  if b.baseOffset < requiredBase then b.advanceBase requiredBase else some b

/-- Step 2 of `apply_delta` for a delta that reaches above the floor: the offset and the bytes
to write, with the clipped bytes counted as elided. -/
def clipToFloor (b : TranscriptBuffer) (offset : Nat) (bytes : List UInt8) :
    Option (TranscriptBuffer × Nat × List UInt8) :=
  if offset < b.baseOffset then do
    let clip ← subOr b.baseOffset offset
    let writeBytes ← sliceFrom bytes clip
    some ({ b with elidedBytes := satAdd b.elidedBytes clip }, b.baseOffset, writeBytes)
  else some (b, offset, bytes)

/-- The resize of Step 3: the bytes of the span once it reaches to `stop`, zero-filled. -/
def extendSpan (b : TranscriptBuffer) (stop : Nat) : Option (List UInt8) :=
  if b.spanEnd < stop then (subOr stop b.baseOffset).map (resize b.data · 0) else some b.data

/-- Steps 3 to 6 of `apply_delta`: extend the span, opening a hole before a gap; write; take the
written range out of the holes; collapse when there are too many. -/
def mergeWrite (b : TranscriptBuffer) (writeOffset stop : Nat) (writeBytes : List UInt8) :
    Option TranscriptBuffer := do
  let spanEnd := b.spanEnd
  let holes := if spanEnd < writeOffset then b.holes ++ [(spanEnd, writeOffset)] else b.holes
  let data ← b.extendSpan stop
  let rel ← subOr writeOffset b.baseOffset
  let data ← copyInto data rel writeBytes
  let b := { b with data := data, holes := subtractRangeFromHoles holes writeOffset stop }
  if maxHoleRanges < b.holes.length then b.collapseToNewest else some b

/-- `apply_delta`. -/
def applyDelta (b : TranscriptBuffer) (offset : Nat) (bytes : List UInt8) :
    Option TranscriptBuffer :=
  match checkedAdd offset bytes.length with
  | none => some b
  | some stop =>
    let b := { b with highWater := max b.highWater stop }
    if bytes.length = 0 then some (b.foldActivity bytes)
    else do
      let b ← b.ringTail stop
      if stop ≤ b.baseOffset then
        -- entirely below the floor: counted, not folded
        some { b with elidedBytes := satAdd b.elidedBytes bytes.length }
      else do
        let (b, writeOffset, writeBytes) ← b.clipToFloor offset bytes
        let b ← b.mergeWrite writeOffset stop writeBytes
        some (b.foldActivity bytes)

/-- `contiguous_run_start_rel`. -/
def contiguousRunStartRel (b : TranscriptBuffer) : Option Nat :=
  match b.holes.getLast? with
  | some lastHole => subOr lastHole.2 b.baseOffset
  | none => some 0

/-- `snapshot_block`. -/
def snapshotBlock (b : TranscriptBuffer) (startRel : Nat) : Option (List UInt8) :=
  sliceFrom b.data startRel

/-- `contiguous_tail`: the outer `Option` is the panic, the inner one the result. -/
def contiguousTail (b : TranscriptBuffer) (window : Nat) : Option (Option (List UInt8)) :=
  if b.data = [] ∨ window = 0 then some none
  else do
    let startRel ← b.contiguousRunStartRel
    let avail ← subOr b.data.length startRel
    let start ← subOr b.data.length (min window avail)
    let block ← b.snapshotBlock start
    some (some block)

/-- The bytes `snapshot` copies. -/
def snapshotBytes (b : TranscriptBuffer) : Option (List UInt8) :=
  if b.data = [] then some [] else b.contiguousRunStartRel.bind b.snapshotBlock

/-- `snapshot`. -/
def snapshot (b : TranscriptBuffer) : Option TranscriptSnapshot := do
  let bytes ← b.snapshotBytes
  some {
    bytes := bytes
    baseOffset := b.baseOffset
    highWater := b.highWater
    elidedBytes := b.elidedBytes
    holes := b.holes }

/-- `clear`: the emptied buffer and the bytes purged. -/
def clear (b : TranscriptBuffer) : TranscriptBuffer × Nat :=
  ({ b with data := [], holes := [], baseOffset := b.highWater }, b.data.length)

end TranscriptBuffer

/-! ## Runs -/

/-- A call that changes a buffer. -/
inductive BufferCall where
  | applyDelta (offset : Nat) (bytes : List UInt8)
  | clear
  deriving DecidableEq, Repr

namespace TranscriptBuffer

/-- One call. -/
def call (b : TranscriptBuffer) : BufferCall → Option TranscriptBuffer
  | .applyDelta offset bytes => b.applyDelta offset bytes
  | .clear => some b.clear.1

/-- A sequence of calls; `none` once one of them panics. -/
def calls (b : TranscriptBuffer) (cs : List BufferCall) : Option TranscriptBuffer :=
  cs.foldlM call b

theorem calls_append (b : TranscriptBuffer) (cs ds : List BufferCall) :
    b.calls (cs ++ ds) = (b.calls cs).bind fun b' => b'.calls ds := by
  unfold calls
  rw [List.foldlM_append]
  rfl

end TranscriptBuffer

end Unimatrix
