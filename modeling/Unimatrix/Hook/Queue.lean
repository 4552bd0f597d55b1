import Mathlib.Algebra.Order.BigOperators.Group.List
import Mathlib.Data.List.Induction
import Mathlib.Data.List.Sort
import Unimatrix.Lib.Decimal

/-!
# The offline queue

Model of `queue.js`: frames that could not be sent wait in a directory, one file a frame, and are sent again by a
later process.

* The directory is the list of its files in the order they were written; a listing filters and sorts their names.
  No call of the file system fails, so a file that is listed is there and `mkdir` succeeds.
* A frame is of any type; `FrameCodec` is what the queue uses of it: two of its fields, `JSON.stringify` as bytes
  (`none` where there is no text) and `JSON.parse`.
* Every call reads the clock on its own (`boundsAt`, `writtenAt`, `now`); the answers of the transport are a list,
  and where it has run out the transport has thrown.
* `Number` of a file name's head is modelled on digits; other names do not occur.

The names of one queue sort as they were written, as long as the clock has 13 digits (`Stamped.listing`). Then
`Keeps` says what one call does right, and **`queue_keeps_iff`**: every call of a run does it iff no frame longer than
the byte bound is enqueued.
-/

namespace Unimatrix.Queue

open Decimal

/-! ## The code -/

/-- `MAX_FILES`. -/
def maxFiles : Nat := 500

/-- `MAX_TOTAL_BYTES`. -/
def maxTotalBytes : Nat := 5 * 1024 * 1024

/-- `MAX_AGE_MS`. -/
def maxAgeMs : Nat := 24 * 60 * 60 * 1000

/-- `REPLAY_MAX_FRAMES`. -/
def replayMaxFrames : Nat := 32

/-- `REPLAY_MAX_BYTES`. -/
def replayMaxBytes : Nat := 262144

/-- `ENQUEUE_MAX_ATTEMPTS`. -/
def enqueueMaxAttempts : Nat := 1000

/-- A file of the queue. -/
structure QueueFile where
  name : List Char
  data : List UInt8
  deriving DecidableEq

/-- What the queue does with a frame. -/
structure FrameCodec (φ : Type) where
  type : φ → Option String
  eventType : φ → Option String
  stringify : φ → Option (List UInt8)
  parse : List UInt8 → Option φ

/-- `listQueueFiles`: oldest first. -/
def listQueueFiles (dir : List QueueFile) : List QueueFile :=
  (dir.filter fun f => ".json".toList.isSuffixOf f.name).insertionSort fun f g => f.name ≤ g.name

/-- `tsFromName`; `none` is NaN. -/
def tsFromName (name : List Char) : Option Nat :=
  let head := name.takeWhile (· != '-')
  if head.all Char.isDigit then some (Nat.ofDigitChars 10 head 0) else none

/-- `unlinkWrapped`. -/
def unlink (dir : List QueueFile) (f : QueueFile) : List QueueFile :=
  dir.filter fun g => decide (g.name ≠ f.name)

/-- The files a prune at `now` removes: older than the limit, or without a time in the name. -/
def isExpired (now : Nat) (f : QueueFile) : Bool :=
  match tsFromName f.name with
  | none => true
  | some ts => decide (ts + maxAgeMs < now)

/-- The bytes of some files. -/
def totalBytes (files : List QueueFile) : Nat := (files.map fun f => f.data.length).sum

/-- The eviction loop of `enforceBounds`: what it removes, oldest first. -/
def evict (incomingBytes : Nat) : List QueueFile → Nat → List QueueFile
  | [], _ => []
  | f :: files, total =>
    if maxFiles < files.length + 1 + 1 ∨ maxTotalBytes < total + incomingBytes then
      f :: evict incomingBytes files (total - f.data.length)
    else []

/-- `enforceBounds`. -/
def enforceBounds (dir : List QueueFile) (incomingBytes now : Nat) : List QueueFile :=
  let names := listQueueFiles dir
  let dir := (names.filter (isExpired now)).foldl unlink dir
  let survivors := names.filter fun f => !isExpired now f
  (evict incomingBytes survivors (totalBytes survivors)).foldl unlink dir

/-- The name of a file. -/
def queueName (ts pid seq : Nat) : List Char :=
  pad ts 13 ++ '-' :: (Nat.toDigits 10 pid ++ '-' :: (pad seq 4 ++ ".json".toList))

/-- The write of `enqueue`: a name that is taken gets the next number. -/
def writeFrame (data : List UInt8) (ts pid : Nat) : Nat → Nat → List QueueFile → List QueueFile
  | 0, _, dir => dir
  | attempts + 1, seq, dir =>
    if dir.any fun f => decide (f.name = queueName ts pid seq) then
      writeFrame data ts pid attempts (seq + 1) dir
    else dir ++ [⟨queueName ts pid seq, data⟩]

section Codec

variable {φ : Type} (codec : FrameCodec φ)

/-- `isDeltaFrame`. -/
def isDeltaFrame (frame : φ) : Bool :=
  codec.type frame == some "RecordEvent" && codec.eventType frame == some "transcript_delta"

/-- `enqueue`. -/
def enqueue (dir : List QueueFile) (frame : φ) (pid boundsAt writtenAt : Nat) : List QueueFile :=
  if isDeltaFrame codec frame then dir
  else
    match codec.stringify frame with
    | none => dir
    | some data =>
      writeFrame data writtenAt pid enqueueMaxAttempts 0 (enforceBounds dir data.length boundsAt)

/-- What a replay leaves, what it has offered to the transport, and what it returns. -/
structure Replayed (φ : Type) where
  dir : List QueueFile
  offered : List φ
  sent : Nat
  stoppedOnFailure : Bool

/-- The loop of `replay` over the files listed. -/
def replayLoop : List QueueFile → List Bool → Nat → Nat → List QueueFile → Replayed φ
  | [], _, sentFrames, _, dir => ⟨dir, [], sentFrames, false⟩
  | f :: files, acks, sentFrames, sentBytes, dir =>
    if replayMaxFrames ≤ sentFrames ∨ replayMaxBytes ≤ sentBytes then ⟨dir, [], sentFrames, false⟩
    else
      match codec.parse f.data with
      | none => replayLoop files acks sentFrames sentBytes (unlink dir f)
      | some frame =>
        match acks with
        | true :: acks =>
          let r := replayLoop files acks (sentFrames + 1) (sentBytes + f.data.length) (unlink dir f)
          { r with offered := frame :: r.offered }
        | _ => ⟨dir, [frame], sentFrames, true⟩

/-- `replay`. -/
def replay (dir : List QueueFile) (acks : List Bool) : Replayed φ :=
  replayLoop codec (listQueueFiles dir) acks 0 0 dir

/-- `prune`. -/
def prune (dir : List QueueFile) (now : Nat) : List QueueFile :=
  ((listQueueFiles dir).filter (isExpired now)).foldl unlink dir

/-- A call. -/
inductive QueueOp (φ : Type) where
  | enqueue (frame : φ) (pid boundsAt writtenAt : Nat)
  | replay (acks : List Bool)
  | prune (now : Nat)

/-- What a call leaves. -/
def step (dir : List QueueFile) : QueueOp φ → List QueueFile
  | .enqueue frame pid boundsAt writtenAt => enqueue codec dir frame pid boundsAt writtenAt
  | .replay acks => (replay codec dir acks).dir
  | .prune now => prune dir now

/-- A run on an empty directory. -/
def run (ops : List (QueueOp φ)) : List QueueFile := ops.foldl (step codec) []

/-- The readings of the clock a call makes, in order. -/
def QueueOp.readings : QueueOp φ → List Nat
  | .enqueue _ _ boundsAt writtenAt => [boundsAt, writtenAt]
  | .replay _ => []
  | .prune now => [now]

/-- The clock of a run increases strictly and has at most 13 digits. -/
def Clocked (ops : List (QueueOp φ)) : Prop :=
  (ops.flatMap QueueOp.readings).Pairwise (· < ·) ∧ ∀ t ∈ ops.flatMap QueueOp.readings, t < 10 ^ 13

end Codec

/-! ## Names -/

theorem tsFromName_queueName (ts pid seq : Nat) : tsFromName (queueName ts pid seq) = some ts := by
  have hpad : (pad ts 13).all Char.isDigit = true :=
    List.all_eq_true.mpr fun c hc => isDigit_of_mem_pad hc
  have hhead : (queueName ts pid seq).takeWhile (· != '-') = pad ts 13 := by
    unfold queueName
    rw [List.takeWhile_append_of_pos, List.takeWhile_cons_of_neg (by decide), List.append_nil]
    intro c hc
    have hdigit := isDigit_of_mem_pad hc
    rw [bne_iff_ne]
    rintro rfl
    exact absurd hdigit (by decide)
  unfold tsFromName
  simp only [hhead, hpad, if_true, ofDigitChars_pad]

/-- The time in the name of a file. -/
def stamp (f : QueueFile) : Nat := (tsFromName f.name).getD 0

/-- The files are those of one queue: named after the times they were written, oldest first. -/
structure Stamped (clock : List Nat) (dir : List QueueFile) : Prop where
  named : ∀ f ∈ dir, ∃ ts pid, ts ∈ clock ∧ ts < 10 ^ 13 ∧ f.name = queueName ts pid 0
  ordered : dir.Pairwise fun f g => stamp f < stamp g

theorem Stamped.sublist {clock : List Nat} {dir dir' : List QueueFile} (h : Stamped clock dir)
    (hsub : dir'.Sublist dir) : Stamped clock dir' :=
  ⟨fun f hf => h.named f (hsub.mem hf), h.ordered.sublist hsub⟩

theorem Stamped.tsFromName {clock : List Nat} {dir : List QueueFile} (h : Stamped clock dir)
    {f : QueueFile} (hf : f ∈ dir) :
    tsFromName f.name = some (stamp f) ∧ stamp f ∈ clock := by
  obtain ⟨ts, pid, hts, -, hname⟩ := h.named f hf
  unfold stamp
  rw [hname, tsFromName_queueName]
  exact ⟨rfl, hts⟩

/-- A later name is new. -/
theorem Stamped.name_ne {clock : List Nat} {dir : List QueueFile} (h : Stamped clock dir)
    {f : QueueFile} (hf : f ∈ dir) {ts : Nat} (hlater : ∀ t ∈ clock, t < ts) (pid : Nat) :
    f.name ≠ queueName ts pid 0 := by
  intro hname
  obtain ⟨hts, hmem⟩ := h.tsFromName hf
  rw [hname, tsFromName_queueName] at hts
  have hlt := hlater _ hmem
  rw [← Option.some.inj hts] at hlt
  exact lt_irrefl ts hlt

theorem Stamped.names {clock : List Nat} {dir : List QueueFile} (h : Stamped clock dir) :
    dir.Pairwise fun f g => f.name < g.name := by
  refine h.ordered.imp_of_mem fun {f g} hf hg hlt => ?_
  obtain ⟨ts, pid, -, -, hfn⟩ := h.named f hf
  obtain ⟨ts', pid', -, hmax, hgn⟩ := h.named g hg
  unfold stamp at hlt
  rw [hfn, hgn, tsFromName_queueName, tsFromName_queueName] at hlt
  rw [hfn, hgn]
  exact pad_append_lt (by decide) hlt hmax _ _

/-- **The listing of a queue is the queue, oldest first.** -/
theorem Stamped.listing {clock : List Nat} {dir : List QueueFile} (h : Stamped clock dir) :
    listQueueFiles dir = dir := by
  have hjson : dir.filter (fun f => ".json".toList.isSuffixOf f.name) = dir := by
    rw [List.filter_eq_self]
    intro f hf
    obtain ⟨ts, pid, -, -, hname⟩ := h.named f hf
    rw [hname, List.isSuffixOf_iff_suffix]
    refine ⟨pad ts 13 ++ '-' :: (Nat.toDigits 10 pid ++ '-' :: pad 0 4), ?_⟩
    unfold queueName
    rw [List.append_assoc, List.cons_append, List.append_assoc, List.cons_append]
  unfold listQueueFiles
  rw [hjson]
  exact List.Pairwise.insertionSort_eq (h.names.imp fun hlt => hlt.le)

/-! ## Removing files -/

/-- No two files have the same name. -/
def Distinct (dir : List QueueFile) : Prop := dir.Pairwise fun f g => f.name ≠ g.name

theorem Stamped.distinct {clock : List Nat} {dir : List QueueFile} (h : Stamped clock dir) :
    Distinct dir := h.names.imp fun hlt => hlt.ne

theorem unlink_head {f : QueueFile} {dir : List QueueFile} (h : Distinct (f :: dir)) :
    unlink (f :: dir) f = dir := by
  unfold unlink
  rw [List.filter_cons_of_neg (by simp), List.filter_eq_self]
  exact fun g hg => decide_eq_true ((List.pairwise_cons.mp h).1 g hg).symm

theorem foldl_unlink_cons {f : QueueFile} {fs : List QueueFile} (h : ∀ g ∈ fs, f.name ≠ g.name)
    (dir : List QueueFile) : fs.foldl unlink (f :: dir) = f :: fs.foldl unlink dir := by
  induction fs generalizing dir with
  | nil => rfl
  | cons g fs ih =>
    obtain ⟨hg, hfs⟩ := List.forall_mem_cons.mp h
    have hkeep : unlink (f :: dir) g = f :: unlink dir g :=
      List.filter_cons_of_pos (decide_eq_true hg)
    rw [List.foldl_cons, List.foldl_cons, hkeep, ih hfs]

/-- Removing the files that satisfy `p` leaves the others. -/
theorem foldl_unlink_filter (p : QueueFile → Bool) {dir : List QueueFile} (h : Distinct dir) :
    (dir.filter p).foldl unlink dir = dir.filter fun f => !p f := by
  induction dir with
  | nil => rfl
  | cons f dir ih =>
    obtain ⟨hf, hdir⟩ := List.pairwise_cons.mp h
    cases hp : p f with
    | true =>
      rw [List.filter_cons_of_pos hp, List.filter_cons_of_neg (by rw [hp]; exact Bool.false_ne_true),
        List.foldl_cons, unlink_head h, ih hdir]
    | false =>
      rw [List.filter_cons_of_neg (by rw [hp]; exact Bool.false_ne_true),
        List.filter_cons_of_pos (by rw [hp]; rfl),
        foldl_unlink_cons fun g hg => hf g (List.mem_filter.mp hg).1, ih hdir]

/-- Removing the first files leaves the rest. -/
theorem foldl_unlink_append {gone kept : List QueueFile} (h : Distinct (gone ++ kept)) :
    gone.foldl unlink (gone ++ kept) = kept := by
  induction gone with
  | nil => rfl
  | cons f gone ih =>
    rw [List.cons_append] at h
    rw [List.foldl_cons, List.cons_append, unlink_head h, ih (List.pairwise_cons.mp h).2]

/-! ## The bounds -/

/-- With one more file of `incomingBytes` the files are over a bound. -/
def Exceeds (incomingBytes : Nat) (files : List QueueFile) : Prop :=
  maxFiles < files.length + 1 ∨ maxTotalBytes < totalBytes files + incomingBytes

theorem totalBytes_cons (f : QueueFile) (files : List QueueFile) :
    totalBytes (f :: files) = f.data.length + totalBytes files := List.sum_cons

theorem totalBytes_append (files files' : List QueueFile) :
    totalBytes (files ++ files') = totalBytes files + totalBytes files' := by
  unfold totalBytes
  rw [List.map_append, List.sum_append]

/-- The eviction loop removes the oldest while it has to, and stops when the rest is within the bounds. -/
theorem evict_spec (incomingBytes : Nat) (files : List QueueFile) :
    ∃ gone kept, files = gone ++ kept ∧ evict incomingBytes files (totalBytes files) = gone ∧
      (kept = [] ∨ ¬ Exceeds incomingBytes kept) ∧
      ∀ pre f post, gone = pre ++ f :: post → Exceeds incomingBytes (f :: (post ++ kept)) := by
  induction files with
  | nil => exact ⟨[], [], rfl, rfl, .inl rfl, fun pre f post h => by
      cases pre <;> cases h⟩
  | cons f files ih =>
    unfold evict
    split
    · rename_i hover
      obtain ⟨gone, kept, hsplit, hgone, hkept, hall⟩ := ih
      have htotal : totalBytes (f :: files) - f.data.length = totalBytes files := by
        rw [totalBytes_cons, Nat.add_sub_cancel_left]
      refine ⟨f :: gone, kept, by rw [hsplit, List.cons_append], by rw [htotal, hgone], hkept,
        fun pre g post h => ?_⟩
      cases pre with
      | nil =>
        cases h
        rw [← hsplit]
        exact hover
      | cons g' pre =>
        cases h
        exact hall pre g post rfl
    · rename_i hfits
      exact ⟨[], f :: files, rfl, rfl, .inr hfits, fun pre g post h => by cases pre <;> cases h⟩

/-- **What `enforceBounds` leaves of a queue.** -/
theorem enforceBounds_spec {clock : List Nat} {dir : List QueueFile} (h : Stamped clock dir)
    (incomingBytes now : Nat) :
    ∃ gone kept, dir.filter (fun f => !isExpired now f) = gone ++ kept ∧
      enforceBounds dir incomingBytes now = kept ∧ (kept = [] ∨ ¬ Exceeds incomingBytes kept) ∧
      ∀ pre f post, gone = pre ++ f :: post → Exceeds incomingBytes (f :: (post ++ kept)) := by
  obtain ⟨gone, kept, hsplit, hgone, hkept, hall⟩ :=
    evict_spec incomingBytes (dir.filter fun f => !isExpired now f)
  refine ⟨gone, kept, hsplit, ?_, hkept, hall⟩
  have hdistinct : Distinct (gone ++ kept) := by
    rw [← hsplit]
    exact (h.sublist List.filter_sublist).distinct
  unfold enforceBounds
  simp only
  rw [h.listing, foldl_unlink_filter _ h.distinct, hgone, hsplit, foldl_unlink_append hdistinct]

/-! ## Replay -/

section Codec

variable {φ : Type} {codec : FrameCodec φ}

/-- The frames of some files, those that cannot be parsed left out. -/
def frames (codec : FrameCodec φ) (files : List QueueFile) : List φ :=
  files.filterMap fun f => codec.parse f.data

theorem frames_cons_none {f : QueueFile} (h : codec.parse f.data = none) (files : List QueueFile) :
    frames codec (f :: files) = frames codec files := List.filterMap_cons_none h

theorem frames_cons_some {f : QueueFile} {frame : φ} (h : codec.parse f.data = some frame)
    (files : List QueueFile) : frames codec (f :: files) = frame :: frames codec files :=
  List.filterMap_cons_some h

/-- The replay `r` of the queue `dir` has worked off `done` and left `rest`. Every frame of `done` was acknowledged;
if it stopped on a failure, the first file of `rest` was offered as well, and not acknowledged. -/
structure Offers (codec : FrameCodec φ) (dir : List QueueFile) (acks : List Bool) (r : Replayed φ)
    (done rest : List QueueFile) : Prop where
  split : dir = done ++ rest
  left : r.dir = rest
  acked : ∀ i, i < (frames codec done).length → acks[i]? = some true
  complete : r.stoppedOnFailure = false → r.offered = frames codec done
  failed : r.stoppedOnFailure = true → ∃ f rest' frame, rest = f :: rest' ∧
    codec.parse f.data = some frame ∧ r.offered = frames codec done ++ [frame] ∧
    acks[(frames codec done).length]? ≠ some true

namespace Offers

variable {f : QueueFile} {files done rest : List QueueFile} {acks : List Bool} {r : Replayed φ}

/-- A file without a frame is worked off without an acknowledgement. -/
theorem unparsable (h : Offers codec files acks r done rest) (hparse : codec.parse f.data = none) :
    Offers codec (f :: files) acks r (f :: done) rest := by
  have hframes := frames_cons_none hparse done
  refine ⟨by rw [List.cons_append, ← h.split], h.left, ?_, ?_, ?_⟩
  · rw [hframes]
    exact h.acked
  · rw [hframes]
    exact h.complete
  · rw [hframes]
    exact h.failed

/-- A frame that is acknowledged. -/
theorem acknowledged (h : Offers codec files acks r done rest) {frame : φ}
    (hparse : codec.parse f.data = some frame) :
    Offers codec (f :: files) (true :: acks) { r with offered := frame :: r.offered } (f :: done) rest := by
  have hframes := frames_cons_some hparse done
  refine ⟨by rw [List.cons_append, ← h.split], h.left, ?_, ?_, ?_⟩
  · rw [hframes]
    intro i hi
    cases i with
    | zero => rfl
    | succ i => exact h.acked i (Nat.lt_of_succ_lt_succ hi)
  · rw [hframes]
    intro hs
    simp only [h.complete hs]
  · intro hs
    obtain ⟨g, rest', frame', hr, hp, hoff, hack⟩ := h.failed hs
    rw [hframes]
    exact ⟨g, rest', frame', hr, hp, by simp only [hoff, List.cons_append], hack⟩

/-- A replay that ends before the first file. -/
theorem untouched (files : List QueueFile) (acks : List Bool) (sent : Nat) :
    Offers codec files acks ⟨files, [], sent, false⟩ [] files :=
  ⟨rfl, rfl, fun i hi => absurd hi (Nat.not_lt_zero i), fun _ => rfl, fun hs => by cases hs⟩

/-- A frame that is not acknowledged. -/
theorem stopped {frame : φ} (hparse : codec.parse f.data = some frame) (hack : acks[0]? ≠ some true) (sent : Nat) :
    Offers codec (f :: files) acks ⟨f :: files, [frame], sent, true⟩ [] (f :: files) :=
  ⟨rfl, rfl, fun i hi => absurd hi (Nat.not_lt_zero i), fun hs => Bool.noConfusion hs,
    fun _ => ⟨f, files, frame, rfl, hparse, rfl, hack⟩⟩

end Offers

theorem replayLoop_offers (codec : FrameCodec φ) {files : List QueueFile} (h : Distinct files) (acks : List Bool)
    (sentFrames sentBytes : Nat) :
    ∃ done rest, Offers codec files acks
        (replayLoop codec files acks sentFrames sentBytes files) done rest ∧
      (replayLoop codec files acks sentFrames sentBytes files).sent =
        sentFrames + (frames codec done).length := by
  induction files generalizing acks sentFrames sentBytes with
  | nil => exact ⟨[], [], .untouched [] acks sentFrames, rfl⟩
  | cons f files ih =>
    have hrest : Distinct files := (List.pairwise_cons.mp h).2
    unfold replayLoop
    split
    · exact ⟨[], f :: files, .untouched (f :: files) acks sentFrames, rfl⟩
    · cases hparse : codec.parse f.data with
      | none =>
        obtain ⟨done, rest, ho, hsent⟩ := ih hrest acks sentFrames sentBytes
        simp only [unlink_head h]
        refine ⟨f :: done, rest, ho.unparsable hparse, ?_⟩
        rw [frames_cons_none hparse]
        exact hsent
      | some frame =>
        match acks with
        | [] => exact ⟨[], f :: files, .stopped hparse (by simp) sentFrames, rfl⟩
        | false :: acks => exact ⟨[], f :: files, .stopped hparse (by simp) sentFrames, rfl⟩
        | true :: acks =>
          obtain ⟨done, rest, ho, hsent⟩ := ih hrest acks (sentFrames + 1) (sentBytes + f.data.length)
          simp only [unlink_head h]
          refine ⟨f :: done, rest, ho.acknowledged hparse, ?_⟩
          rw [frames_cons_some hparse, hsent, List.length_cons]
          omega

/-- **A replay works off the queue from its oldest file on.** -/
theorem replay_offers (codec : FrameCodec φ) {clock : List Nat} {dir : List QueueFile} (h : Stamped clock dir)
    (acks : List Bool) :
    ∃ done rest, Offers codec dir acks (replay codec dir acks) done rest ∧
      (replay codec dir acks).sent = (frames codec done).length := by
  obtain ⟨done, rest, ho, hsent⟩ := replayLoop_offers codec h.distinct acks 0 0
  unfold replay
  rw [h.listing]
  exact ⟨done, rest, ho, by rw [hsent, Nat.zero_add]⟩

/-! ## Enqueue -/

/-- The text a call writes to the queue, if any. -/
def QueueOp.written (codec : FrameCodec φ) : QueueOp φ → Option (List UInt8)
  | .enqueue frame _ _ _ => if isDeltaFrame codec frame then none else codec.stringify frame
  | .replay _ => none
  | .prune _ => none

theorem writeFrame_fresh {dir : List QueueFile} {ts pid : Nat} (data : List UInt8)
    (h : ∀ f ∈ dir, f.name ≠ queueName ts pid 0) :
    writeFrame data ts pid enqueueMaxAttempts 0 dir = dir ++ [⟨queueName ts pid 0, data⟩] := by
  unfold enqueueMaxAttempts writeFrame
  rw [if_neg]
  rw [List.any_eq_true]
  rintro ⟨f, hf, hname⟩
  exact h f hf (of_decide_eq_true hname)

/-- **What `enqueue` does to a queue**: nothing, or it makes room and appends one file. -/
theorem enqueue_spec (codec : FrameCodec φ) {clock : List Nat} {dir : List QueueFile} (h : Stamped clock dir) (frame : φ)
    (pid boundsAt : Nat) {writtenAt : Nat} (hlater : ∀ t ∈ clock, t < writtenAt) :
    let op : QueueOp φ := .enqueue frame pid boundsAt writtenAt
    (op.written codec = none ∧ step codec dir op = dir) ∨
      ∃ data gone kept, op.written codec = some data ∧
        dir.filter (fun f => !isExpired boundsAt f) = gone ++ kept ∧
        step codec dir op = kept ++ [⟨queueName writtenAt pid 0, data⟩] ∧
        (kept = [] ∨ ¬ Exceeds data.length kept) ∧
        ∀ pre f post, gone = pre ++ f :: post → Exceeds data.length (f :: (post ++ kept)) := by
  intro op
  simp only [op, step, enqueue, QueueOp.written]
  cases hdelta : isDeltaFrame codec frame with
  | true => exact .inl ⟨rfl, rfl⟩
  | false =>
    simp only [Bool.false_eq_true, if_false]
    cases hdata : codec.stringify frame with
    | none => exact .inl ⟨rfl, rfl⟩
    | some data =>
      obtain ⟨gone, kept, hsplit, hkept, hfits, hall⟩ := enforceBounds_spec h data.length boundsAt
      have hsub : kept.Sublist dir := by
        refine List.Sublist.trans (List.sublist_append_right gone kept) ?_
        rw [← hsplit]
        exact List.filter_sublist
      have hfresh : ∀ f ∈ kept, f.name ≠ queueName writtenAt pid 0 := fun f hf =>
        h.name_ne (hsub.mem hf) hlater pid
      refine .inr ⟨data, gone, kept, rfl, hsplit, ?_, hfits, hall⟩
      simp only
      rw [hkept, writeFrame_fresh data hfresh]

/-! ## One call -/

/-- Why a file that was in the queue is not there any more. -/
inductive Leaves (codec : FrameCodec φ) (dir : List QueueFile) (f : QueueFile) : QueueOp φ → Prop where
  /-- It was offered and the transport said yes. -/
  | acknowledged (acks : List Bool) (before after : List QueueFile) (frame : φ) :
      dir = before ++ f :: after → codec.parse f.data = some frame →
      acks[(frames codec before).length]? = some true → Leaves codec dir f (.replay acks)
  | unparsable (acks : List Bool) : codec.parse f.data = none → Leaves codec dir f (.replay acks)
  /-- It was older than the age limit. -/
  | expired (op : QueueOp φ) (now ts : Nat) : now ∈ op.readings → tsFromName f.name = some ts →
      ts + maxAgeMs < now → Leaves codec dir f op
  /-- It was the oldest left, and over the bounds with the younger ones and the new frame. -/
  | evicted (frame : φ) (pid boundsAt writtenAt : Nat) (data : List UInt8)
      (older younger : List QueueFile) :
      (QueueOp.enqueue frame pid boundsAt writtenAt).written codec = some data →
      dir.filter (fun g => !isExpired boundsAt g) = older ++ f :: younger →
      (∀ g ∈ older, g ∉ step codec dir (.enqueue frame pid boundsAt writtenAt)) →
      Exceeds data.length (f :: younger) → Leaves codec dir f (.enqueue frame pid boundsAt writtenAt)

/-- What a call does right. -/
structure Keeps (codec : FrameCodec φ) (dir : List QueueFile) (op : QueueOp φ) : Prop where
  /-- The queue stays in the order its files were written. -/
  order : ∃ kept, kept.Sublist dir ∧ (step codec dir op = kept ∨
    ∃ data name, op.written codec = some data ∧ step codec dir op = kept ++ [⟨name, data⟩])
  /-- After an enqueue the queue is within its bounds. -/
  bounded : ∀ frame pid boundsAt writtenAt, op = .enqueue frame pid boundsAt writtenAt →
    (step codec dir op).length ≤ maxFiles ∧ totalBytes (step codec dir op) ≤ maxTotalBytes
  /-- No file is lost without a reason. -/
  leaves : ∀ f ∈ dir, f ∉ step codec dir op → Leaves codec dir f op
  /-- A replay offers the oldest files, and stops at the first failure. -/
  offers : ∀ acks, op = .replay acks →
    ∃ done rest, Offers codec dir acks (replay codec dir acks) done rest

/-- The text a call writes fits the byte bound. -/
def QueueOp.Fits (codec : FrameCodec φ) (op : QueueOp φ) : Prop :=
  ∀ data, op.written codec = some data → data.length ≤ maxTotalBytes

/-- The queue is within its bounds. -/
def Within (dir : List QueueFile) : Prop := dir.length ≤ maxFiles ∧ totalBytes dir ≤ maxTotalBytes

theorem Within.sublist {dir dir' : List QueueFile} (h : Within dir) (hsub : dir'.Sublist dir) :
    Within dir' :=
  ⟨hsub.length_le.trans h.1, ((hsub.map _).sum_le_sum fun _ _ => Nat.zero_le _).trans h.2⟩

/-- With room for the new file the queue is within its bounds. -/
theorem within_append {kept : List QueueFile} {file : QueueFile}
    (hfits : file.data.length ≤ maxTotalBytes)
    (h : kept = [] ∨ ¬ Exceeds file.data.length kept) : Within (kept ++ [file]) := by
  unfold Within
  rw [List.length_append, totalBytes_append, List.length_singleton, totalBytes_cons]
  change _ ∧ _ + (_ + 0) ≤ _
  rcases h with rfl | h
  · exact ⟨by decide, by rw [Nat.add_zero]; simpa [totalBytes] using hfits⟩
  · unfold Exceeds at h
    rw [not_or, not_lt, not_lt] at h
    exact ⟨h.1, by rw [Nat.add_zero]; exact h.2⟩

theorem prune_eq {clock : List Nat} {dir : List QueueFile} (h : Stamped clock dir) (now : Nat) :
    prune dir now = dir.filter fun f => !isExpired now f := by
  unfold prune
  rw [h.listing, foldl_unlink_filter _ h.distinct]

/-- A file of a queue expires by its age. -/
theorem Stamped.expired {clock : List Nat} {dir : List QueueFile} (h : Stamped clock dir)
    {f : QueueFile} (hf : f ∈ dir) {now : Nat} (hexp : isExpired now f) :
    ∃ ts, Queue.tsFromName f.name = some ts ∧ ts + maxAgeMs < now := by
  obtain ⟨hts, -⟩ := h.tsFromName hf
  unfold isExpired at hexp
  rw [hts] at hexp
  exact ⟨_, hts, of_decide_eq_true hexp⟩

theorem step_sublist (codec : FrameCodec φ) {clock : List Nat} {dir : List QueueFile} (h : Stamped clock dir)
    {op : QueueOp φ} (hlater : ∀ t ∈ clock, ∀ now ∈ op.readings, t < now) :
    (op.written codec = none ∧ (step codec dir op).Sublist dir) ∨
      ∃ data kept frame pid boundsAt writtenAt, op = .enqueue frame pid boundsAt writtenAt ∧
        op.written codec = some data ∧ kept.Sublist dir ∧
        step codec dir op = kept ++ [⟨queueName writtenAt pid 0, data⟩] ∧
        (kept = [] ∨ ¬ Exceeds data.length kept) := by
  cases op with
  | enqueue frame pid boundsAt writtenAt =>
    have hwritten : ∀ t ∈ clock, t < writtenAt := fun t ht =>
      hlater t ht writtenAt (List.mem_cons_of_mem boundsAt List.mem_cons_self)
    rcases enqueue_spec codec h frame pid boundsAt hwritten with
      ⟨hnone, hsame⟩ | ⟨data, gone, kept, hdata, hsplit, hstep, hfits, -⟩
    · exact .inl ⟨hnone, by rw [hsame]⟩
    · refine .inr ⟨data, kept, frame, pid, boundsAt, writtenAt, rfl, hdata, ?_, hstep, hfits⟩
      refine List.Sublist.trans (List.sublist_append_right gone kept) ?_
      rw [← hsplit]
      exact List.filter_sublist
  | replay acks =>
    obtain ⟨done, rest, ho, -⟩ := replay_offers codec h acks
    refine .inl ⟨rfl, ?_⟩
    change (replay codec dir acks).dir.Sublist dir
    rw [ho.left]
    conv_rhs => rw [ho.split]
    exact List.sublist_append_right done rest
  | prune now =>
    refine .inl ⟨rfl, ?_⟩
    change (prune dir now).Sublist dir
    rw [prune_eq h]
    exact List.filter_sublist

/-- **A later call leaves a queue.** -/
theorem Stamped.step {clock : List Nat} {dir : List QueueFile} (h : Stamped clock dir)
    {op : QueueOp φ} (hlater : ∀ t ∈ clock, ∀ now ∈ op.readings, t < now)
    (hdigits : ∀ now ∈ op.readings, now < 10 ^ 13) :
    Stamped (clock ++ op.readings) (step codec dir op) := by
  have widen : ∀ {dir'}, dir'.Sublist dir → Stamped (clock ++ op.readings) dir' := fun hsub =>
    ⟨fun f hf => by
      obtain ⟨ts, pid, hts, hrest⟩ := h.named f (hsub.mem hf)
      exact ⟨ts, pid, List.mem_append_left _ hts, hrest⟩, h.ordered.sublist hsub⟩
  rcases step_sublist codec h hlater with
    ⟨-, hsub⟩ | ⟨data, kept, frame, pid, boundsAt, writtenAt, rfl, -, hsub, hstep, -⟩
  · exact widen hsub
  · have hmem : writtenAt ∈ (QueueOp.enqueue frame pid boundsAt writtenAt).readings :=
      List.mem_cons_of_mem boundsAt List.mem_cons_self
    have hkept := widen hsub
    rw [hstep]
    refine ⟨fun f hf => ?_, List.pairwise_append.mpr ⟨hkept.ordered, List.pairwise_singleton _ _, ?_⟩⟩
    · rcases List.mem_append.mp hf with hf | hf
      · exact hkept.named f hf
      · rw [List.mem_singleton.mp hf]
        exact ⟨writtenAt, pid, List.mem_append_right clock hmem, hdigits writtenAt hmem, rfl⟩
    · intro f hf g hg
      rw [List.mem_singleton.mp hg]
      have hstamp : stamp ⟨queueName writtenAt pid 0, data⟩ = writtenAt := by
        unfold stamp
        rw [tsFromName_queueName]
        rfl
      rw [hstamp]
      exact hlater _ (h.tsFromName (hsub.mem hf)).2 writtenAt hmem

section Leaving

variable {clock : List Nat} {dir : List QueueFile} (h : Stamped clock dir) {f : QueueFile} (hf : f ∈ dir)
include h hf

/-- A file that a pruning removes. -/
theorem Stamped.leaves_expired {now : Nat} {op : QueueOp φ} (hnow : now ∈ op.readings)
    (hexp : isExpired now f = true) : Leaves codec dir f op := by
  obtain ⟨ts, hts, hold⟩ := h.expired hf hexp
  exact Leaves.expired _ now ts hnow hts hold

/-- A file that an enqueue removes. -/
theorem enqueue_leaves (frame : φ) (pid boundsAt : Nat) {writtenAt : Nat} (hwritten : ∀ t ∈ clock, t < writtenAt)
    (hgone : f ∉ step codec dir (.enqueue frame pid boundsAt writtenAt)) :
    Leaves codec dir f (.enqueue frame pid boundsAt writtenAt) := by
  rcases enqueue_spec codec h frame pid boundsAt hwritten with
    ⟨-, hsame⟩ | ⟨data, gone, kept, hdata, hsplit, hstep, -, hall⟩
  · rw [hsame] at hgone
    exact absurd hf hgone
  · cases hexp : isExpired boundsAt f with
    | true => exact h.leaves_expired hf List.mem_cons_self hexp
    | false =>
      have hsurvives : f ∈ gone ++ kept := by
        rw [← hsplit]
        exact List.mem_filter.mpr ⟨hf, by rw [hexp]; rfl⟩
      rcases List.mem_append.mp hsurvives with hg | hk
      · -- it was among the oldest, which made room
        obtain ⟨older, younger, rfl⟩ := List.append_of_mem hg
        refine Leaves.evicted frame pid boundsAt writtenAt data older (younger ++ kept) hdata
          (by rw [hsplit, List.append_assoc, List.cons_append]) (fun g hg' => ?_) (hall older f younger rfl)
        have hpair : Distinct ((older ++ f :: younger) ++ kept) := by
          rw [← hsplit]
          exact (h.sublist List.filter_sublist).distinct
        have hgdir : g ∈ dir := by
          have hmem : g ∈ (older ++ f :: younger) ++ kept :=
            List.mem_append_left _ (List.mem_append_left _ hg')
          rw [← hsplit] at hmem
          exact (List.mem_filter.mp hmem).1
        rw [hstep, List.mem_append, List.mem_singleton, not_or]
        refine ⟨fun hk => ?_, fun hnew => h.name_ne hgdir hwritten pid (by rw [hnew])⟩
        exact (List.pairwise_append.mp hpair).2.2 g (List.mem_append_left _ hg') g hk rfl
      · rw [hstep] at hgone
        exact absurd (List.mem_append_left _ hk) hgone

/-- A file that a replay removes. -/
theorem replay_leaves (acks : List Bool) (hgone : f ∉ step codec dir (.replay acks)) :
    Leaves codec dir f (.replay acks) := by
  obtain ⟨done, rest, ho, -⟩ := replay_offers codec h acks
  have hdone : f ∈ done := by
    have hmem : f ∈ done ++ rest := by
      rw [← ho.split]
      exact hf
    rcases List.mem_append.mp hmem with hd | hr
    · exact hd
    · have hleft : f ∉ rest := by
        rw [← ho.left]
        exact hgone
      exact absurd hr hleft
  obtain ⟨before, after, rfl⟩ := List.append_of_mem hdone
  cases hparse : codec.parse f.data with
  | none => exact Leaves.unparsable acks hparse
  | some frame =>
    refine Leaves.acknowledged acks before (after ++ rest) frame ?_ hparse (ho.acked _ ?_)
    · rw [ho.split, List.append_assoc, List.cons_append]
    · have hframes : frames codec (before ++ f :: after) = frames codec before ++ frame :: frames codec after := by
        rw [← frames_cons_some hparse after]
        exact List.filterMap_append
      rw [hframes, List.length_append, List.length_cons]
      omega

/-- **No file leaves a queue without a reason.** -/
theorem step_leaves {op : QueueOp φ} (hlater : ∀ t ∈ clock, ∀ now ∈ op.readings, t < now)
    (hgone : f ∉ step codec dir op) : Leaves codec dir f op := by
  cases op with
  | enqueue frame pid boundsAt writtenAt =>
    exact enqueue_leaves h hf frame pid boundsAt
      (fun t ht => hlater t ht writtenAt (List.mem_cons_of_mem boundsAt List.mem_cons_self)) hgone
  | replay acks => exact replay_leaves h hf acks hgone
  | prune now =>
    change f ∉ prune dir now at hgone
    rw [prune_eq h, List.mem_filter, not_and] at hgone
    exact h.leaves_expired hf List.mem_cons_self (by simpa using hgone hf)

end Leaving

/-- A call that writes what fits keeps the queue within its bounds. -/
theorem Within.step {clock : List Nat} {dir : List QueueFile} (h : Stamped clock dir)
    (hin : Within dir) {op : QueueOp φ} (hlater : ∀ t ∈ clock, ∀ now ∈ op.readings, t < now)
    (hfits : op.Fits codec) : Within (Queue.step codec dir op) := by
  rcases step_sublist codec h hlater with
    ⟨-, hsub⟩ | ⟨data, kept, frame, pid, boundsAt, writtenAt, -, hdata, -, hstep, hroom⟩
  · exact hin.sublist hsub
  · rw [hstep]
    exact within_append (hfits data hdata) hroom

/-- What a call that writes what fits does to a queue within its bounds. -/
theorem keeps_of_fits {clock : List Nat} {dir : List QueueFile} (h : Stamped clock dir)
    (hin : Within dir) {op : QueueOp φ} (hlater : ∀ t ∈ clock, ∀ now ∈ op.readings, t < now)
    (hfits : op.Fits codec) : Keeps codec dir op where
  order := by
    rcases step_sublist codec h hlater with
      ⟨-, hsub⟩ | ⟨data, kept, frame, pid, boundsAt, writtenAt, -, hdata, hsub, hstep, -⟩
    · exact ⟨_, hsub, .inl rfl⟩
    · exact ⟨kept, hsub, .inr ⟨data, _, hdata, hstep⟩⟩
  bounded := fun _ _ _ _ _ => Within.step h hin hlater hfits
  leaves := fun f hf hgone => step_leaves h hf hlater hgone
  offers := by
    rintro acks rfl
    obtain ⟨done, rest, ho, -⟩ := replay_offers codec h acks
    exact ⟨done, rest, ho⟩

/-! ## Runs -/

theorem Clocked.init {ops : List (QueueOp φ)} {op : QueueOp φ} (h : Clocked (ops ++ [op])) :
    Clocked ops ∧ (∀ t ∈ ops.flatMap QueueOp.readings, ∀ now ∈ op.readings, t < now) ∧
      ∀ now ∈ op.readings, now < 10 ^ 13 := by
  unfold Clocked at h ⊢
  rw [List.flatMap_append, List.flatMap_singleton] at h
  obtain ⟨hpair, hdigits⟩ := h
  obtain ⟨hops, -, hcross⟩ := List.pairwise_append.mp hpair
  exact ⟨⟨hops, fun t ht => hdigits t (List.mem_append_left _ ht)⟩, hcross,
    fun now hnow => hdigits now (List.mem_append_right _ hnow)⟩

theorem run_concat (codec : FrameCodec φ) (ops : List (QueueOp φ)) (op : QueueOp φ) :
    run codec (ops ++ [op]) = step codec (run codec ops) op := by
  unfold run
  rw [List.foldl_append]
  rfl

/-- Every run leaves a queue. -/
theorem run_stamped (codec : FrameCodec φ) (ops : List (QueueOp φ)) (h : Clocked ops) :
    Stamped (ops.flatMap QueueOp.readings) (run codec ops) := by
  induction ops using List.reverseRecOn with
  | nil => exact ⟨fun f hf => absurd hf List.not_mem_nil, List.Pairwise.nil⟩
  | append_singleton ops op ih =>
    obtain ⟨hops, hlater, hdigits⟩ := h.init
    rw [run_concat, List.flatMap_append, List.flatMap_singleton]
    exact (ih hops).step hlater hdigits

/-- A run that writes what fits leaves a queue within its bounds. -/
theorem run_within (codec : FrameCodec φ) (ops : List (QueueOp φ)) (h : Clocked ops)
    (hfits : ∀ op ∈ ops, op.Fits codec) : Within (run codec ops) := by
  induction ops using List.reverseRecOn with
  | nil => exact ⟨Nat.zero_le _, Nat.zero_le _⟩
  | append_singleton ops op ih =>
    obtain ⟨hops, hlater, -⟩ := h.init
    rw [run_concat]
    exact Within.step (run_stamped codec ops hops)
      (ih hops fun o ho => hfits o (List.mem_append_left _ ho)) hlater
      (hfits op (List.mem_append_right _ List.mem_cons_self))

theorem Clocked.of_prefix {ops ops' : List (QueueOp φ)} (h : Clocked ops) (hp : ops' <+: ops) :
    Clocked ops' := by
  obtain ⟨rest, rfl⟩ := hp
  unfold Clocked at h ⊢
  rw [List.flatMap_append] at h
  exact ⟨(List.pairwise_append.mp h.1).1, fun t ht => h.2 t (List.mem_append_left _ ht)⟩

/-- A call that keeps the bounds has written what fits. -/
theorem Keeps.fits {clock : List Nat} {dir : List QueueFile} (h : Stamped clock dir)
    {op : QueueOp φ} (hlater : ∀ t ∈ clock, ∀ now ∈ op.readings, t < now) (hk : Keeps codec dir op) :
    op.Fits codec := by
  intro data hdata
  rcases step_sublist codec h hlater with
    ⟨hnone, -⟩ | ⟨data', kept, frame, pid, boundsAt, writtenAt, hop, hdata', -, hstep, -⟩
  · rw [hnone] at hdata
    cases hdata
  · rw [hdata'] at hdata
    cases hdata
    obtain ⟨-, hbytes⟩ := hk.bounded frame pid boundsAt writtenAt hop
    rw [hstep, totalBytes_append, totalBytes_cons] at hbytes
    exact (Nat.le_add_right _ _).trans ((Nat.le_add_left _ _).trans hbytes)

/-- **Every call of a run keeps the queue iff every frame enqueued fits the byte bound.** -/
theorem queue_keeps_iff (codec : FrameCodec φ) (ops : List (QueueOp φ)) (h : Clocked ops) :
    (∀ pre op, pre ++ [op] <+: ops → Keeps codec (run codec pre) op) ↔
      ∀ op ∈ ops, op.Fits codec := by
  constructor
  · intro hall op hop
    obtain ⟨pre, post, rfl⟩ := List.append_of_mem hop
    have hp : pre ++ [op] <+: pre ++ op :: post := ⟨post, by rw [List.append_assoc]; rfl⟩
    obtain ⟨hpre, hlater, -⟩ := (h.of_prefix hp).init
    exact (hall pre op hp).fits (run_stamped codec pre hpre) hlater
  · intro hfits pre op hp
    obtain ⟨hpre, hlater, -⟩ := (h.of_prefix hp).init
    have hmem : ∀ o ∈ pre ++ [op], o ∈ ops := fun o ho => hp.subset ho
    exact keeps_of_fits (run_stamped codec pre hpre)
      (run_within codec pre hpre fun o ho => hfits o (hmem o (List.mem_append_left _ ho))) hlater
      (hfits op (hmem op (List.mem_append_right _ List.mem_cons_self)))

end Codec

/-- Frames that are `n` times the letter x: `{"p":"xx"}`. -/
def payloadCodec : FrameCodec Nat where
  type _ := none
  eventType _ := none
  stringify n := some ([0x7b, 0x22, 0x70, 0x22, 0x3a, 0x22] ++ List.replicate n 0x78 ++ [0x22, 0x7d])
  parse data :=
    if data = [0x7b, 0x22, 0x70, 0x22, 0x3a, 0x22] ++ List.replicate (data.length - 8) 0x78 ++ [0x22, 0x7d]
    then some (data.length - 8) else none

/-- Two frames wait, one is sent, a day later the other one has expired. -/
def shortRun : List (QueueOp Nat) :=
  [.enqueue 2 17 100 101, .enqueue 3 18 200 201, .replay [true, false], .prune 86500000]

theorem queue_keeps_iff_shortRun :
    Clocked shortRun ∧ run payloadCodec shortRun = [] ∧
      Keeps payloadCodec (run payloadCodec (shortRun.take 2)) (.replay [true, false]) := by
  have hclock : Clocked shortRun := ⟨by decide, by decide⟩
  refine ⟨hclock, by decide +kernel, (queue_keeps_iff payloadCodec shortRun hclock).mpr ?_ _ _ ?_⟩
  · intro op hop data hdata
    simp only [shortRun, List.mem_cons, List.not_mem_nil, or_false] at hop
    rcases hop with rfl | rfl | rfl | rfl
    · cases hdata
      decide
    · cases hdata
      decide
    · cases hdata
    · cases hdata
  · exact ⟨[.prune 86500000], rfl⟩

/-- A frame of 5 MiB and eight bytes is written to the empty queue, which is then over the byte bound. -/
theorem large_frame_exceeds :
    Clocked [QueueOp.enqueue maxTotalBytes 17 100 101] ∧
      maxTotalBytes < totalBytes (run payloadCodec [.enqueue maxTotalBytes 17 100 101]) := by
  refine ⟨⟨by decide, by decide⟩, ?_⟩
  have hempty : Stamped [] [] := ⟨fun f hf => absurd hf List.not_mem_nil, List.Pairwise.nil⟩
  have hlater : ∀ t ∈ ([] : List Nat), t < 101 := fun t ht => absurd ht List.not_mem_nil
  rcases enqueue_spec payloadCodec hempty maxTotalBytes 17 100 hlater with ⟨hnone, -⟩ | ⟨data, gone, kept, hdata, -, hstep, -⟩
  · cases hnone
  · cases hdata
    change maxTotalBytes < totalBytes (step payloadCodec [] (.enqueue maxTotalBytes 17 100 101))
    rw [hstep, totalBytes_append, totalBytes_cons]
    simp only [List.length_append, List.length_replicate]
    exact Nat.lt_of_lt_of_le (Nat.lt_add_of_pos_right (by decide : 0 < 8))
      (by simp only [List.length_cons, List.length_nil]; omega)

end Unimatrix.Queue
