import Unimatrix.Hook.TopicSignal
import Unimatrix.Lib.Decimal
import Unimatrix.Lib.Lines
import Unimatrix.Lib.Rotation
import Mathlib.Data.List.Sort

/-!
# The event queue

Model of `event_queue.rs`: requests that could not be sent are kept in files of up to 1000 lines, and handed to the
transport by a later replay.

* The directory is the list of its files. No call of the file system fails, and the directory holds what
  `enqueue` put there.
* `RequestCodec` is what the queue relies on of `serde_json`: a request is written as an object on one line, and
  that line is read as a request again (`reread`; a number may be rounded).
* Every call reads the clock for the pruning, for the name of a new file, and where it writes.

A directory stands for the batches of a `Rotation` (`Stored`), and a call is a `push` there (`enqueue_stored`).
**`eventQueue_correct_iff`**: the bounds and the replay are right in every run, but with 10 files the oldest is deleted
although the newest has room: at most 9001 calls are without that.
-/

namespace Unimatrix.EventQueue

open Lines Words Decimal TopicSignal

/-! ## The code -/

/-- `MAX_EVENTS_PER_FILE`. -/
def maxEventsPerFile : Nat := 1000

/-- `MAX_QUEUE_FILES`. -/
def maxQueueFiles : Nat := 10

/-- `PRUNE_AGE`, in milliseconds. -/
def pruneAge : Nat := 7 * 24 * 60 * 60 * 1000

/-- `FILE_PREFIX`. -/
def filePrefix : List Char := "pending-".toList

/-- `FILE_EXTENSION`. -/
def fileExtension : List Char := ".jsonl".toList

/-- A file of the directory. -/
structure QueueFile where
  name : List Char
  data : List Char
  modified : Nat
  deriving DecidableEq

/-- What the queue does with a request. -/
structure RequestCodec (R : Type) where
  toJson : R → List Char
  fromStr : List Char → Option R
  reread : R → R
  oneLine : ∀ r, '\n' ∉ toJson r
  braced : ∀ r, ∃ body, toJson r = '{' :: (body ++ ['}'])
  readable : ∀ r, fromStr (toJson r) = some (reread r)

/-- `is_queue_file`. -/
def isQueueFile (name : List Char) : Bool := filePrefix.isPrefixOf name && fileExtension.isSuffixOf name

/-- `list_queue_files`: oldest first. -/
def listQueueFiles (dir : List QueueFile) : List QueueFile :=
  (dir.filter fun f => isQueueFile f.name).insertionSort fun f g => f.name ≤ g.name

/-- `fs::remove_file`. -/
def removeFile (dir : List QueueFile) (f : QueueFile) : List QueueFile :=
  dir.filter fun g => decide (g.name ≠ f.name)

/-- `prune`. A file that is newer than the clock has no age. -/
def prune (now : Nat) (dir : List QueueFile) : List QueueFile :=
  dir.filter fun f => !(isQueueFile f.name && decide (f.modified + pruneAge < now))

/-- The loop of `enforce_file_limit` over the files listed. -/
def enforceLoop : List QueueFile → List QueueFile → List QueueFile
  | [], dir => dir
  | oldest :: files, dir =>
    if maxQueueFiles ≤ files.length + 1 then enforceLoop files (removeFile dir oldest) else dir

/-- `enforce_file_limit`. -/
def enforceFileLimit (dir : List QueueFile) : List QueueFile := enforceLoop (listQueueFiles dir) dir

/-- The lines of a file that are not blank. -/
def lineCount (data : List Char) : Nat :=
  ((lines '\n' '\r' data).filter fun l => !(trim isRustWhitespace l).isEmpty).length

/-- The name of a new file. -/
def queueName (timestamp : Nat) : List Char := filePrefix ++ (Nat.toDigits 10 timestamp ++ fileExtension)

/-- `find_or_create_target`. -/
def findOrCreateTarget (dir : List QueueFile) (timestamp : Nat) : List Char :=
  match (listQueueFiles dir).getLast? with
  | some latest => if lineCount latest.data < maxEventsPerFile then latest.name else queueName timestamp
  | none => queueName timestamp

/-- Open a file to append to it, and write. -/
def appendTo (dir : List QueueFile) (target text : List Char) (now : Nat) : List QueueFile :=
  if dir.any fun f => decide (f.name = target) then
    dir.map fun f => if f.name = target then { f with data := f.data ++ text, modified := now } else f
  else dir ++ [⟨target, text, now⟩]

/-- A call of `enqueue`, with what the clock reads during it. -/
structure Call (R : Type) where
  request : R
  prunedAt : Nat
  timestamp : Nat
  writtenAt : Nat

section Codec

variable {R : Type} (codec : RequestCodec R)

/-- `enqueue`. -/
def enqueue (dir : List QueueFile) (call : Call R) : List QueueFile :=
  let dir := enforceFileLimit (prune call.prunedAt dir)
  appendTo dir (findOrCreateTarget dir call.timestamp) (codec.toJson call.request ++ ['\n']) call.writtenAt

/-- A run on an empty directory. -/
def run (calls : List (Call R)) : List QueueFile := calls.foldl (enqueue codec) []

/-- The requests a replay reads in a file. -/
def requestsIn (data : List Char) : List R :=
  (lines '\n' '\r' data).filterMap fun line =>
    let line := trim isRustWhitespace line
    if line.isEmpty then none else codec.fromStr line

/-- What a replay hands to the transport, how often that says yes, and what it leaves. -/
structure Replayed (R : Type) where
  offered : List R
  replayed : Nat
  dir : List QueueFile

/-- `replay`. The `i`-th request that is handed over gets the answer `answers i`. -/
def replay (answers : Nat → Bool) (dir : List QueueFile) : Replayed R :=
  let offered := (listQueueFiles dir).flatMap fun f => requestsIn codec f.data
  { offered
    replayed := ((List.range offered.length).filter answers).length
    dir := (listQueueFiles dir).foldl removeFile dir }

end Codec

/-! ## What a file holds -/

section Codec

variable {R : Type} {codec : RequestCodec R}

/-- The text of a file with some requests. -/
def text (codec : RequestCodec R) (rs : List R) : List Char :=
  rs.flatMap fun r => codec.toJson r ++ ['\n']

theorem stripCr_toJson (r : R) : stripCr '\r' (codec.toJson r) = codec.toJson r := by
  obtain ⟨body, hbody⟩ := codec.braced r
  unfold stripCr
  rw [hbody, ← List.cons_append, List.getLast?_concat, if_neg (by decide)]

theorem trim_toJson (r : R) : trim isRustWhitespace (codec.toJson r) = codec.toJson r := by
  obtain ⟨body, hbody⟩ := codec.braced r
  rw [hbody]
  exact trim_ends (by decide) (by decide) body

theorem toJson_ne_nil (r : R) : (codec.toJson r).isEmpty = false := by
  obtain ⟨body, hbody⟩ := codec.braced r
  rw [hbody]
  rfl

theorem lines_text (rs : List R) : lines '\n' '\r' (text codec rs) = rs.map codec.toJson := by
  induction rs with
  | nil => rfl
  | cons r rs ih =>
    unfold text at ih ⊢
    rw [List.flatMap_cons, List.append_assoc, List.singleton_append, lines_line _ _ (codec.oneLine r), ih,
      stripCr_toJson, List.map_cons]

theorem lineCount_text (rs : List R) : lineCount (text codec rs) = rs.length := by
  unfold lineCount
  rw [lines_text, List.filter_eq_self.mpr, List.length_map]
  intro line hline
  obtain ⟨r, -, rfl⟩ := List.mem_map.mp hline
  rw [trim_toJson, toJson_ne_nil]
  rfl

/-- **What was written is read.** -/
theorem requestsIn_text (rs : List R) : requestsIn codec (text codec rs) = rs.map codec.reread := by
  unfold requestsIn
  rw [lines_text, List.filterMap_map, ← List.filterMap_eq_map]
  refine List.filterMap_congr fun r _ => ?_
  simp only [Function.comp_apply, trim_toJson, toJson_ne_nil, codec.readable]
  rfl

/-! ## What a directory stands for -/

/-- The names of batches sort as the batches do. -/
def Sorted (b : List (Nat × List R)) : Prop := b.Pairwise fun f g => queueName f.1 < queueName g.1

/-- The directory holds the batches. -/
def Stored (codec : RequestCodec R) (dir : List QueueFile) (b : List (Nat × List R)) : Prop :=
  dir.map (fun f => (f.name, f.data)) = b.map fun f => (queueName f.1, text codec f.2)

theorem isQueueFile_queueName (timestamp : Nat) : isQueueFile (queueName timestamp) = true := by
  unfold isQueueFile queueName
  rw [Bool.and_eq_true, List.isPrefixOf_iff_prefix, List.isSuffixOf_iff_suffix]
  exact ⟨List.prefix_append _ _, (List.suffix_append _ _).trans (List.suffix_append _ _)⟩

variable {dir : List QueueFile} {b : List (Nat × List R)}

theorem Stored.length_eq (h : Stored codec dir b) : dir.length = b.length := by
  have hlen := congrArg List.length h
  rwa [List.length_map, List.length_map] at hlen

theorem Stored.names (h : Stored codec dir b) : dir.map QueueFile.name = b.map fun f => queueName f.1 := by
  have hnames := congrArg (List.map Prod.fst) h
  rwa [List.map_map, List.map_map] at hnames

theorem Stored.pairwise (h : Stored codec dir b) (hs : Sorted b) :
    dir.Pairwise fun f g => f.name < g.name := by
  have hb : (b.map fun f => queueName f.1).Pairwise (· < ·) := List.pairwise_map.mpr hs
  rw [← h.names] at hb
  exact List.pairwise_map.mp hb

/-- **The listing of a queue is the queue, oldest first.** -/
theorem Stored.listing (h : Stored codec dir b) (hs : Sorted b) : listQueueFiles dir = dir := by
  have hall : dir.filter (fun f => isQueueFile f.name) = dir := by
    refine List.filter_eq_self.mpr fun f hf => ?_
    have hname : f.name ∈ b.map fun f => queueName f.1 := by
      rw [← h.names]
      exact List.mem_map_of_mem hf
    obtain ⟨batch, -, hbatch⟩ := List.mem_map.mp hname
    rw [← hbatch]
    exact isQueueFile_queueName batch.1
  unfold listQueueFiles
  rw [hall]
  exact List.Pairwise.insertionSort_eq ((h.pairwise hs).imp fun hlt => hlt.le)

/-! ## The file limit -/

theorem removeFile_head {f : QueueFile} (h : ∀ g ∈ dir, f.name < g.name) : removeFile (f :: dir) f = dir := by
  unfold removeFile
  rw [List.filter_cons_of_neg (by simp), List.filter_eq_self]
  exact fun g hg => decide_eq_true (h g hg).ne'

/-- **The oldest files go until fewer than 10 are left.** -/
theorem enforceLoop_eq (h : dir.Pairwise fun f g => f.name < g.name) :
    enforceLoop dir dir = dir.drop (dir.length + 1 - maxQueueFiles) := by
  induction dir with
  | nil => rfl
  | cons f dir ih =>
    obtain ⟨hf, hdir⟩ := List.pairwise_cons.mp h
    unfold enforceLoop
    rw [List.length_cons]
    by_cases hlen : maxQueueFiles ≤ dir.length + 1
    · have hsucc : dir.length + 1 + 1 - maxQueueFiles = dir.length + 1 - maxQueueFiles + 1 := by omega
      rw [if_pos hlen, removeFile_head hf, ih hdir, hsucc, List.drop_succ_cons]
    · have hzero : dir.length + 1 + 1 - maxQueueFiles = 0 := by omega
      rw [if_neg hlen, hzero, List.drop_zero]

theorem Stored.trim (h : Stored codec dir b) (hs : Sorted b) :
    Stored codec (enforceFileLimit dir) (Rotation.trim maxQueueFiles b) := by
  unfold enforceFileLimit Stored Rotation.trim
  rw [h.listing hs, enforceLoop_eq (h.pairwise hs), List.map_drop, List.map_drop, h, h.length_eq]

theorem Sorted.trim (hs : Sorted b) : Sorted (Rotation.trim maxQueueFiles b) :=
  hs.sublist (List.drop_sublist _ _)

/-! ## The target -/

theorem findOrCreateTarget_eq (h : Stored codec dir b) (hs : Sorted b) (timestamp : Nat) :
    findOrCreateTarget dir timestamp =
      match b.getLast? with
      | some last => if last.2.length < maxEventsPerFile then queueName last.1 else queueName timestamp
      | none => queueName timestamp := by
  have hlast := congrArg List.getLast? h
  rw [List.getLast?_map, List.getLast?_map] at hlast
  unfold findOrCreateTarget
  rw [h.listing hs]
  cases hb : b.getLast? with
  | none =>
    rw [hb] at hlast
    rw [Option.map_eq_none_iff.mp hlast]
  | some last =>
    rw [hb] at hlast
    obtain ⟨latest, hlatest, heq⟩ := Option.map_eq_some_iff.mp hlast
    obtain ⟨hname, hdata⟩ := Prod.mk.inj heq
    rw [hlatest]
    dsimp only
    rw [hname, hdata, lineCount_text]

theorem appendTo_new {target : List Char} (h : ∀ f ∈ dir, f.name ≠ target) (line : List Char) (now : Nat) :
    appendTo dir target line now = dir ++ [⟨target, line, now⟩] := by
  unfold appendTo
  rw [if_neg]
  rw [List.any_eq_true]
  rintro ⟨f, hf, hname⟩
  exact h f hf (of_decide_eq_true hname)

theorem appendTo_last {f : QueueFile} (h : ∀ g ∈ dir, g.name ≠ f.name) (line : List Char) (now : Nat) :
    appendTo (dir ++ [f]) f.name line now = dir ++ [⟨f.name, f.data ++ line, now⟩] := by
  unfold appendTo
  rw [if_pos (List.any_eq_true.mpr ⟨f, List.mem_append_right _ List.mem_cons_self, decide_eq_true rfl⟩),
    List.map_append, List.map_singleton, if_pos rfl]
  congr 1
  conv_rhs => rw [← List.map_id dir]
  exact List.map_congr_left fun g hg => if_neg (h g hg)

/-- A line that begins a file. -/
theorem Stored.append_new (h : Stored codec dir b) {timestamp : Nat} {r : R}
    (hs : Sorted (b ++ [(timestamp, [r])])) (now : Nat) :
    Stored codec (appendTo dir (queueName timestamp) (codec.toJson r ++ ['\n']) now)
      (b ++ [(timestamp, [r])]) := by
  have hfresh : ∀ f ∈ dir, f.name ≠ queueName timestamp := by
    intro f hf
    have hname : f.name ∈ b.map fun f => queueName f.1 := by
      rw [← h.names]
      exact List.mem_map_of_mem hf
    obtain ⟨batch, hbatch, heq⟩ := List.mem_map.mp hname
    rw [← heq]
    exact ((List.pairwise_append.mp hs).2.2 batch hbatch _ List.mem_cons_self).ne
  unfold Stored at h ⊢
  rw [appendTo_new hfresh, List.map_append, List.map_append, h]
  simp [text]

/-- A line for the newest file. -/
theorem Stored.append_last {last : Nat × List R} (h : Stored codec dir (b ++ [last])) (hs : Sorted (b ++ [last]))
    (r : R) (now : Nat) :
    Stored codec (appendTo dir (queueName last.1) (codec.toJson r ++ ['\n']) now)
      (b ++ [(last.1, last.2 ++ [r])]) := by
  have hsorted := h.pairwise hs
  unfold Stored at h
  rw [List.map_append, List.map_singleton] at h
  obtain ⟨older, newest, rfl, holder, hnewest⟩ := List.map_eq_append_iff.mp h
  obtain ⟨f, rfl, hf⟩ := List.map_eq_singleton_iff.mp hnewest
  obtain ⟨hname, hdata⟩ := Prod.mk.inj hf
  have hother : ∀ g ∈ older, g.name ≠ f.name := fun g hg =>
    ((List.pairwise_append.mp hsorted).2.2 g hg f List.mem_cons_self).ne
  unfold Stored
  rw [← hname, appendTo_last hother, List.map_append, List.map_append, holder]
  simp [hname, hdata, text]

/-- **A call is a push.** -/
theorem enqueue_stored (h : Stored codec dir b) (hs : Sorted b) {call : Call R}
    (hprune : prune call.prunedAt dir = dir)
    (hs' : Sorted (Rotation.push maxEventsPerFile maxQueueFiles b (call.timestamp, call.request))) :
    Stored codec (enqueue codec dir call)
      (Rotation.push maxEventsPerFile maxQueueFiles b (call.timestamp, call.request)) := by
  have htrim := h.trim hs
  have hstrim := Sorted.trim hs
  unfold enqueue
  rw [hprune]
  dsimp only
  rw [findOrCreateTarget_eq htrim hstrim]
  unfold Rotation.push Rotation.append at hs' ⊢
  generalize Rotation.trim maxQueueFiles b = kept at htrim hstrim hs' ⊢
  cases kept using List.reverseRecOn with
  | nil => exact htrim.append_new hs' call.writtenAt
  | append_singleton older last =>
    rw [List.getLast?_concat] at hs' ⊢
    dsimp only at hs' ⊢
    by_cases hroom : last.2.length < maxEventsPerFile
    · rw [if_pos hroom, if_pos hroom, List.dropLast_concat]
      exact htrim.append_last hstrim call.request call.writtenAt
    · rw [if_neg hroom] at hs'
      rw [if_neg hroom, if_neg hroom]
      exact htrim.append_new hs' call.writtenAt

/-! ## Runs -/

/-- The elements a run puts into the log. -/
def elements (calls : List (Call R)) : List (Nat × R) := calls.map fun call => (call.timestamp, call.request)

/-- The batches after a run. -/
def batches (calls : List (Call R)) : List (Nat × List R) :=
  Rotation.run maxEventsPerFile maxQueueFiles (elements calls)

/-- The names made at every 1000th call, the calls that begin a file, sort as they were made. -/
def NamesOrdered (calls : List (Call R)) : Prop :=
  (Rotation.marks maxEventsPerFile (elements calls)).Pairwise fun t t' => queueName t < queueName t'

/-- A run in which no file grows old, and whose files sort as they were made. -/
structure QueueRun (codec : RequestCodec R) where
  calls : List (Call R)
  young : ∀ pre call post, calls = pre ++ call :: post →
    prune call.prunedAt (EventQueue.run codec pre) = EventQueue.run codec pre
  ordered : NamesOrdered calls

theorem batches_concat (calls : List (Call R)) (call : Call R) :
    batches (calls ++ [call]) =
      Rotation.push maxEventsPerFile maxQueueFiles (batches calls) (call.timestamp, call.request) := by
  unfold batches elements
  rw [List.map_append, List.map_singleton, Rotation.run_concat]

theorem NamesOrdered.of_append {pre post : List (Call R)} (h : NamesOrdered (pre ++ post)) :
    NamesOrdered pre := by
  unfold NamesOrdered elements at h ⊢
  rw [List.map_append] at h
  exact h.sublist (Rotation.marks_append_sublist _ _ _)

theorem NamesOrdered.sorted {calls : List (Call R)} (h : NamesOrdered calls) : Sorted (batches calls) := by
  have hstamps := Rotation.run_stamps (c := maxEventsPerFile) (m := maxQueueFiles) (by decide) (by decide)
    (elements calls)
  have hsorted := List.pairwise_map.mp (h.sublist hstamps)
  exact hsorted

/-- **What a run leaves in the directory.** -/
theorem QueueRun.stored (q : QueueRun codec) {pre post : List (Call R)} (h : q.calls = pre ++ post) :
    Stored codec (run codec pre) (batches pre) := by
  induction pre using List.reverseRecOn generalizing post with
  | nil => rfl
  | append_singleton pre call ih =>
    rw [List.append_assoc, List.singleton_append] at h
    have hordered := q.ordered
    rw [h, ← List.singleton_append, ← List.append_assoc] at hordered
    have hsorted := hordered.of_append.sorted
    have hrun : run codec (pre ++ [call]) = enqueue codec (run codec pre) call := by
      unfold run
      rw [List.foldl_concat]
    rw [batches_concat] at hsorted ⊢
    rw [hrun]
    exact enqueue_stored (ih h) hordered.of_append.of_append.sorted (q.young pre call post h) hsorted

theorem QueueRun.sorted (q : QueueRun codec) {pre post : List (Call R)} (h : q.calls = pre ++ post) :
    Sorted (batches pre) := by
  have hordered := q.ordered
  rw [h] at hordered
  exact hordered.of_append.sorted

/-! ## What a run does right -/

/-- The lines of a directory. -/
def totalLines (dir : List QueueFile) : Nat := (dir.map fun f => lineCount f.data).sum

/-- At most 10 files of at most 1000 lines; and a replay hands over what they hold, which is what was enqueued last,
in that order, and leaves nothing. -/
structure Keeps (codec : RequestCodec R) (calls : List (Call R)) : Prop where
  files : (run codec calls).length ≤ maxQueueFiles
  lines : ∀ f ∈ run codec calls, lineCount f.data ≤ maxEventsPerFile
  offers : ∀ answers, (replay codec answers (run codec calls)).offered =
    (calls.map fun call => codec.reread call.request).drop (calls.length - totalLines (run codec calls))
  once : ∀ answers, (replay codec answers (run codec calls)).offered.length = totalLines (run codec calls)
  emptied : ∀ answers, (replay codec answers (run codec calls)).dir = []

/-- The call deletes a file. -/
def Deletes (codec : RequestCodec R) (pre : List (Call R)) (call : Call R) : Prop :=
  ∃ f ∈ run codec pre, ∀ g ∈ run codec (pre ++ [call]), g.name ≠ f.name

/-- There are 10 files, and the newest is full. -/
def Full (dir : List QueueFile) : Prop :=
  dir.length = maxQueueFiles ∧
    ∃ latest, (listQueueFiles dir).getLast? = some latest ∧ lineCount latest.data = maxEventsPerFile

/-- What a run should do: after every call the directory is right and holds the last 9000 requests, and only a call
that finds 10 files and the newest full deletes one. -/
structure Correct (codec : RequestCodec R) (calls : List (Call R)) : Prop where
  keeps : ∀ pre post, calls = pre ++ post → Keeps codec pre
  deletes : ∀ pre call post, calls = pre ++ call :: post → Deletes codec pre call → Full (run codec pre)
  newest : ∀ pre post, calls = pre ++ post → min pre.length 9000 ≤ totalLines (run codec pre)

theorem Stored.totalLines (h : Stored codec dir b) : totalLines dir = (b.flatMap Prod.snd).length := by
  have hlines : dir.map (fun f => lineCount f.data) = b.map fun f => f.2.length := by
    have hmap := congrArg (List.map fun f : List Char × List Char => lineCount f.2) h
    rw [List.map_map, List.map_map] at hmap
    refine hmap.trans (List.map_congr_left fun f _ => ?_)
    exact lineCount_text f.2
  unfold EventQueue.totalLines
  rw [hlines, List.length_flatMap]

theorem Stored.lineCount_le (h : Stored codec dir b) {n : Nat} (hn : ∀ f ∈ b, f.2.length ≤ n) :
    ∀ f ∈ dir, lineCount f.data ≤ n := by
  intro f hf
  have hmem : (f.name, f.data) ∈ b.map fun f => (queueName f.1, text codec f.2) := by
    rw [← h]
    exact List.mem_map_of_mem hf
  obtain ⟨batch, hbatch, heq⟩ := List.mem_map.mp hmem
  rw [← (Prod.mk.inj heq).2, lineCount_text]
  exact hn batch hbatch

theorem foldl_removeFile (h : dir.Pairwise fun f g => f.name < g.name) : dir.foldl removeFile dir = [] := by
  induction dir with
  | nil => rfl
  | cons f dir ih =>
    obtain ⟨hf, hdir⟩ := List.pairwise_cons.mp h
    rw [List.foldl_cons, removeFile_head hf]
    exact ih hdir

/-- **What a replay hands over.** -/
theorem Stored.replay (h : Stored codec dir b) (hs : Sorted b) (answers : Nat → Bool) :
    (replay codec answers dir).offered = (b.flatMap Prod.snd).map codec.reread ∧
      (EventQueue.replay codec answers dir).dir = [] := by
  unfold EventQueue.replay
  rw [h.listing hs]
  refine ⟨?_, foldl_removeFile (h.pairwise hs)⟩
  have hflat : dir.flatMap (fun f => requestsIn codec f.data) =
      (dir.map fun f => (f.name, f.data)).flatMap fun f => requestsIn codec f.2 := by
    rw [List.flatMap_map]
  dsimp only
  rw [hflat, h, List.flatMap_map, List.map_flatMap]
  simp only [requestsIn_text]

/-- The requests that are kept are the newest. -/
theorem batches_history (calls : List (Call R)) :
    ∃ gone, calls.map Call.request = gone ++ (batches calls).flatMap Prod.snd ∧
      (gone = [] ∨ 9001 < calls.length ∧ 8001 ≤ ((batches calls).flatMap Prod.snd).length) := by
  obtain ⟨gone, hsplit, hgone⟩ := Rotation.run_history (c := maxEventsPerFile) (m := maxQueueFiles)
    (by decide) (by decide) (elements calls)
  have hmap : (elements calls).map Prod.snd = calls.map Call.request := by
    unfold elements
    rw [List.map_map]
    rfl
  have hlen : (elements calls).length = calls.length := List.length_map _
  rw [hmap] at hsplit
  rw [hlen] at hgone
  exact ⟨gone, hsplit, hgone⟩

/-- **What every run does right.** -/
theorem QueueRun.keeps (q : QueueRun codec) {pre post : List (Call R)} (h : q.calls = pre ++ post) :
    Keeps codec pre := by
  have hstored := q.stored h
  have hsorted := q.sorted h
  obtain ⟨hfiles, hlines⟩ := Rotation.run_bounded (c := maxEventsPerFile) (m := maxQueueFiles) (by decide)
    (by decide) (elements pre)
  obtain ⟨gone, hsplit, -⟩ := batches_history pre
  have hlen : pre.length - EventQueue.totalLines (run codec pre) = gone.length := by
    have hlen := congrArg List.length hsplit
    rw [List.length_map, List.length_append] at hlen
    rw [hstored.totalLines, hlen, Nat.add_sub_cancel]
  refine ⟨?_, hstored.lineCount_le fun f hf => (hlines f hf).2, fun answers => ?_, fun answers => ?_,
    fun answers => (hstored.replay hsorted answers).2⟩
  · rw [hstored.length_eq]
    exact hfiles
  · have hreread : pre.map (fun call => codec.reread call.request) =
        (pre.map Call.request).map codec.reread := by
      rw [List.map_map]
      rfl
    rw [(hstored.replay hsorted answers).1, hlen, hreread, hsplit, List.map_append,
      List.drop_left' (List.length_map _)]
  · rw [(hstored.replay hsorted answers).1, List.length_map, hstored.totalLines]

/-- At least 8001 requests are kept, and all of the first 9001. -/
theorem QueueRun.retained (q : QueueRun codec) {pre post : List (Call R)} (h : q.calls = pre ++ post) :
    min pre.length 8001 ≤ EventQueue.totalLines (run codec pre) ∧
      (pre.length ≤ 9001 → EventQueue.totalLines (run codec pre) = pre.length) := by
  obtain ⟨gone, hsplit, hgone⟩ := batches_history pre
  have hlen := congrArg List.length hsplit
  rw [List.length_map, List.length_append] at hlen
  rw [(q.stored h).totalLines]
  rcases hgone with rfl | ⟨hlong, hkept⟩
  · rw [List.length_nil] at hlen
    exact ⟨by omega, fun _ => by omega⟩
  · exact ⟨by omega, fun hshort => by omega⟩

/-! ## What a call deletes -/

section Deletion

variable (q : QueueRun codec) {pre post : List (Call R)} {call : Call R} (h : q.calls = pre ++ call :: post)
include h

theorem QueueRun.next_names : (run codec (pre ++ [call])).map QueueFile.name =
    ((Rotation.push maxEventsPerFile maxQueueFiles (batches pre) (call.timestamp, call.request)).map
      Prod.fst).map queueName := by
  have hnext : q.calls = (pre ++ [call]) ++ post := by rw [h, List.append_assoc, List.singleton_append]
  rw [(q.stored hnext).names, batches_concat, List.map_map]
  rfl

/-- With fewer than 10 files nothing is deleted. -/
theorem QueueRun.not_deletes (hlt : (run codec pre).length < maxQueueFiles) : ¬ Deletes codec pre call := by
  rintro ⟨f, hf, hgone⟩
  rw [(q.stored h).length_eq] at hlt
  have hname : f.name ∈ ((batches pre).map Prod.fst).map queueName := by
    rw [List.map_map]
    have hmem := List.mem_map_of_mem (f := QueueFile.name) hf
    rw [(q.stored h).names] at hmem
    exact hmem
  have hkept : f.name ∈ (run codec (pre ++ [call])).map QueueFile.name := by
    rw [q.next_names h]
    unfold Rotation.push
    rw [Rotation.trim_eq_self hlt]
    exact ((Rotation.map_fst_append _ _ _).map queueName).subset hname
  obtain ⟨g, hg, heq⟩ := List.mem_map.mp hkept
  exact hgone g hg heq

/-- **With 10 files the oldest is deleted, and the newest has room.** -/
theorem QueueRun.deletes (hten : (run codec pre).length = maxQueueFiles) :
    Deletes codec pre call ∧ ¬ Full (run codec pre) := by
  have hstored := q.stored h
  have hsorted := q.sorted h
  rw [hstored.length_eq] at hten
  obtain ⟨last, hlast, hone⟩ := Rotation.run_top (c := maxEventsPerFile) (m := maxQueueFiles) (by decide)
    (by decide) hten
  have hroom : last.2.length < maxEventsPerFile := by
    rw [hone]
    decide
  constructor
  · have hnames := q.next_names h
    have hten' : (batches pre).length = 10 := hten
    generalize hb : batches pre = b at hnames hten' hstored hsorted
    cases b with
    | nil => cases hten'
    | cons oldest rest =>
      have hdrop : Rotation.trim maxQueueFiles (oldest :: rest) = rest := by
        unfold Rotation.trim
        rw [hten']
        rfl
      have hrest : rest.getLast? = some last := by
        have hlast' : (batches pre).getLast? = some last := hlast
        rw [hb] at hlast'
        cases rest with
        | nil => cases hten'
        | cons f rest => rwa [List.getLast?_cons_cons] at hlast'
      unfold Rotation.push at hnames
      rw [hdrop, Rotation.map_fst_append_of_room hrest hroom] at hnames
      have hoffset : (run codec pre).map QueueFile.name = (oldest :: rest).map fun f => queueName f.1 :=
        hstored.names
      obtain ⟨f, files, hfiles, hname, -⟩ := List.map_eq_cons_iff.mp hoffset
      refine ⟨f, by rw [hfiles]; exact List.mem_cons_self, fun g hg heq => ?_⟩
      have hg' := List.mem_map_of_mem (f := QueueFile.name) hg
      rw [hnames, heq, hname, List.map_map] at hg'
      obtain ⟨batch, hbatch, hsame⟩ := List.mem_map.mp hg'
      exact (List.rel_of_pairwise_cons hsorted hbatch).ne hsame.symm
  · rintro ⟨-, latest, hlatest, hfull⟩
    rw [hstored.listing hsorted] at hlatest
    have hview := congrArg List.getLast? hstored
    rw [List.getLast?_map, List.getLast?_map, hlatest] at hview
    have hlast' : (batches pre).getLast? = some last := hlast
    rw [hlast'] at hview
    obtain ⟨-, hdata⟩ := Prod.mk.inj (Option.some.inj hview)
    rw [hdata, lineCount_text, hone] at hfull
    exact absurd hfull (by decide)

end Deletion

/-- Up to 9000 calls there are fewer than 10 files, and after 9001 there are 10. -/
theorem QueueRun.files (q : QueueRun codec) {pre post : List (Call R)} (h : q.calls = pre ++ post) :
    (pre.length ≤ 9000 → (run codec pre).length < maxQueueFiles) ∧
      (pre.length = 9001 → (run codec pre).length = maxQueueFiles) := by
  have hlen : (elements pre).length = pre.length := List.length_map _
  rw [(q.stored h).length_eq, ← hlen]
  exact ⟨fun hle => Rotation.length_run_lt (by decide) (by decide) hle,
    fun heq => Rotation.length_run_eq (by decide) (by decide) heq⟩

/-- A run that deletes only where it has to is short. -/
theorem QueueRun.length_le (q : QueueRun codec)
    (h : ∀ pre call post, q.calls = pre ++ call :: post → Deletes codec pre call → Full (run codec pre)) :
    q.calls.length ≤ 9001 := by
  by_contra hlong
  rw [not_le] at hlong
  have hsplit : q.calls = q.calls.take 9001 ++ q.calls[9001] :: q.calls.drop 9002 := by
    rw [List.getElem_cons_drop, List.take_append_drop]
  have hlen : (q.calls.take 9001).length = 9001 := by
    rw [List.length_take]
    omega
  obtain ⟨hdeletes, hroom⟩ := q.deletes hsplit ((q.files hsplit).2 hlen)
  exact hroom (h _ _ _ hsplit hdeletes)

/-- **The event queue.** Every run keeps its files within the bounds, replays what it kept in order, and keeps at
least the last 8001 requests. It is right altogether iff it has at most 9001 calls. -/
theorem eventQueue_correct_iff (q : QueueRun codec) :
    (Correct codec q.calls ↔ q.calls.length ≤ 9001) ∧
    ∀ pre post, q.calls = pre ++ post →
      Keeps codec pre ∧ min pre.length 8001 ≤ totalLines (run codec pre) := by
  refine ⟨⟨fun hc => q.length_le hc.deletes, fun hle => ⟨fun pre post h => q.keeps h, ?_, ?_⟩⟩,
    fun pre post h => ⟨q.keeps h, (q.retained h).1⟩⟩
  · intro pre call post h hdeletes
    have hlen := congrArg List.length h
    rw [List.length_append, List.length_cons] at hlen
    exact absurd hdeletes (q.not_deletes h ((q.files h).1 (by omega)))
  · intro pre post h
    have hlen := congrArg List.length h
    rw [List.length_append] at hlen
    rw [(q.retained h).2 (by omega)]
    exact min_le_left _ _

/-! ## Clocks -/

/-- The readings of the clock a call makes, in order. -/
def Call.readings (call : Call R) : List Nat := [call.prunedAt, call.timestamp, call.writtenAt]

/-- Times with the same number of digits. -/
theorem queueName_lt {w t t' : Nat} (hlow : 10 ^ w ≤ t) (hlt : t < t') (hhigh : t' < 10 ^ (w + 1)) :
    queueName t < queueName t' := by
  have hpad : ∀ n, 10 ^ w ≤ n → pad n (w + 1) = Nat.toDigits 10 n := by
    intro n hn
    unfold pad
    dsimp only
    rw [if_pos]
    by_contra hshort
    have hle : (Nat.toDigits 10 n).length ≤ w := by omega
    cases w with
    | zero => exact absurd hle (Nat.not_le.mpr Nat.length_toDigits_pos)
    | succ w => exact absurd ((Nat.length_toDigits_le_iff (by decide) (Nat.succ_pos w)).mp hle) (Nat.not_lt.mpr hn)
  have hdigits := pad_append_lt (Nat.succ_pos w) hlt hhigh fileExtension fileExtension
  rw [hpad t hlow, hpad t' (hlow.trans hlt.le)] at hdigits
  exact List.append_left_lt hdigits

/-- While the clock increases and has a fixed number of digits, the names sort as they are made. -/
theorem namesOrdered_of_digits {calls : List (Call R)} {w : Nat}
    (hinc : (calls.map Call.timestamp).Pairwise (· < ·))
    (hdigits : ∀ call ∈ calls, 10 ^ w ≤ call.timestamp ∧ call.timestamp < 10 ^ (w + 1)) :
    NamesOrdered calls := by
  have hmap : (elements calls).map Prod.fst = calls.map Call.timestamp := by
    unfold elements
    rw [List.map_map]
    rfl
  have hsub := Rotation.marks_sublist maxEventsPerFile (elements calls)
  rw [hmap] at hsub
  refine (hinc.sublist hsub).imp_of_mem fun {t t'} ht ht' hlt => ?_
  obtain ⟨call, hcall, rfl⟩ := List.mem_map.mp (hsub.subset ht)
  obtain ⟨call', hcall', rfl⟩ := List.mem_map.mp (hsub.subset ht')
  exact queueName_lt (hdigits call hcall).1 hlt (hdigits call' hcall').2

theorem mem_appendTo {f : QueueFile} {target line : List Char} {now : Nat}
    (h : f ∈ appendTo dir target line now) : f.modified = now ∨ f ∈ dir := by
  unfold appendTo at h
  split at h
  · obtain ⟨g, hg, rfl⟩ := List.mem_map.mp h
    split
    · exact .inl rfl
    · exact .inr hg
  · rcases List.mem_append.mp h with h | h
    · exact .inr h
    · rw [List.mem_singleton.mp h]
      exact .inl rfl

theorem mem_enforceLoop {f : QueueFile} {files : List QueueFile} (h : f ∈ enforceLoop files dir) : f ∈ dir := by
  induction files generalizing dir with
  | nil => exact h
  | cons oldest files ih =>
    unfold enforceLoop at h
    split at h
    · exact (List.mem_filter.mp (ih h)).1
    · exact h

/-- A file was written last by one of the calls. -/
theorem modified_of_run {calls : List (Call R)} {f : QueueFile} (h : f ∈ run codec calls) :
    ∃ call ∈ calls, f.modified = call.writtenAt := by
  induction calls using List.reverseRecOn with
  | nil => exact absurd h List.not_mem_nil
  | append_singleton calls call ih =>
    have hrun : run codec (calls ++ [call]) = enqueue codec (run codec calls) call := by
      unfold run
      rw [List.foldl_concat]
    rw [hrun] at h
    rcases mem_appendTo h with h | h
    · exact ⟨call, List.mem_append_right _ List.mem_cons_self, h⟩
    · obtain ⟨call', hcall', heq⟩ := ih (List.mem_filter.mp (mem_enforceLoop h)).1
      exact ⟨call', List.mem_append_left _ hcall', heq⟩

/-- Within seven days no file grows old. -/
theorem young_of_week {calls : List (Call R)} (start : Nat) (hwritten : ∀ call ∈ calls, start ≤ call.writtenAt)
    (hpruned : ∀ call ∈ calls, call.prunedAt ≤ start + pruneAge) :
    ∀ pre call post, calls = pre ++ call :: post → prune call.prunedAt (run codec pre) = run codec pre := by
  intro pre call post h
  refine List.filter_eq_self.mpr fun f hf => ?_
  obtain ⟨call', hcall', hmod⟩ := modified_of_run hf
  have hw := hwritten call' (by rw [h]; exact List.mem_append_left _ hcall')
  have hp := hpruned call (by rw [h]; exact List.mem_append_right _ List.mem_cons_self)
  rw [Bool.not_eq_true', Bool.and_eq_false_iff, decide_eq_false_iff_not]
  exact .inr (by omega)

end Codec

/-! ## A run that loses a file -/

/-- What the queue does with `Ping`. -/
def pingCodec : RequestCodec Unit where
  toJson := fun _ => "\x7b\"type\":\"Ping\"\x7d".toList
  fromStr := fun s => if s = "\x7b\"type\":\"Ping\"\x7d".toList then some () else none
  reread := id
  oneLine := fun _ => by decide
  braced := fun _ => ⟨"\"type\":\"Ping\"".toList, by decide⟩
  readable := fun _ => if_pos rfl

/-- The `i`-th of some calls, one every three milliseconds. -/
def ping (i : Nat) : Call Unit := ⟨(), 10 ^ 12 + 3 * i, 10 ^ 12 + 3 * i + 1, 10 ^ 12 + 3 * i + 2⟩

/-- Some calls, of a week at most. -/
def pingRun (n : Nat) (hn : n ≤ 10 ^ 8) : QueueRun pingCodec where
  calls := (List.range n).map ping
  young := by
    refine young_of_week (10 ^ 12) (fun call h => ?_) fun call h => ?_
    · obtain ⟨i, -, rfl⟩ := List.mem_map.mp h
      dsimp only [ping]
      omega
    · obtain ⟨i, hi, rfl⟩ := List.mem_map.mp h
      have hlt := List.mem_range.mp hi
      dsimp only [ping, pruneAge]
      omega
  ordered := by
    refine namesOrdered_of_digits (w := 12) ?_ fun call h => ?_
    · rw [List.map_map]
      refine List.pairwise_map.mpr (List.pairwise_lt_range.imp fun {i j} hij => ?_)
      dsimp only [Function.comp, ping]
      omega
    · obtain ⟨i, hi, rfl⟩ := List.mem_map.mp h
      have hlt := List.mem_range.mp hi
      dsimp only [ping]
      omega

theorem readings_pingRun (n : Nat) (hn : n ≤ 10 ^ 8) :
    ((pingRun n hn).calls.flatMap Call.readings).Pairwise (· < ·) := by
  unfold pingRun
  rw [List.flatMap_map, List.pairwise_flatMap]
  refine ⟨fun i _ => ?_, List.pairwise_lt_range.imp fun {i j} hij t ht t' ht' => ?_⟩
  · unfold ping Call.readings
    simp
  · unfold ping Call.readings at ht ht'
    simp only [List.mem_cons, List.not_mem_nil, or_false] at ht ht'
    omega

theorem length_pingRun (n : Nat) (hn : n ≤ 10 ^ 8) : (pingRun n hn).calls.length = n := by
  unfold pingRun
  rw [List.length_map, List.length_range]

/-- The last of 9002 calls deletes the oldest of 10 files, and the newest holds one line. -/
theorem long_run_loses_file :
    ¬ ∀ q : QueueRun pingCodec, (q.calls.flatMap Call.readings).Pairwise (· < ·) → Correct pingCodec q.calls := by
  intro hclaim
  have hle := (pingRun 9002 (by decide)).length_le (hclaim _ (readings_pingRun 9002 (by decide))).deletes
  rw [length_pingRun] at hle
  omega

end Unimatrix.EventQueue
