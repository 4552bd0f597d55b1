import Unimatrix.Lib.Runs
import Unimatrix.Store.AnalyticsReplay

/-!
# The analytics drain task

Model of `enqueue_analytics` and `close` of `db.rs` and of `run_drain_task` and `drain_remaining_and_commit` of
`analytics.rs`: the store offers events to a bounded channel, a task takes them out in batches and commits each.

* A state is the channel, what the task is at (`Task`) and what it has committed. A step is a call of the store, an
  outside event, or the task going on to its next turn or `await` (`poll`, `timeout`, `commit`), so calls of the store
  come between any two steps of the task.
* `shutdown` is set when the signal is sent or its sender dropped, which the task cannot tell apart; `hungUp` when the
  sender of the events is dropped. Nobody is left to offer events then.
* `timeout` may come while the task waits, whatever the channel holds. `commit` is told the times and the fault of the
  transaction; once the pools are closed its `BEGIN` fails.
* `accepted`, `batches`, `offered`, `discarded` and `late` (what was accepted after the shutdown) are no variables of
  the program; they record the run.

**`drain_accounted`**: every event offered is in exactly one place at every moment, in order. **`run_replayed`**: the
tables are what the committed batches make of them. **`shutdown_exits`**: after a shutdown the task ends within
twice as many steps as there are events, whatever fails, and leaves nothing of what was accepted before.
-/

namespace Unimatrix.Analytics

/-! ## The code -/

/-- `ANALYTICS_QUEUE_CAPACITY`. -/
def analyticsQueueCapacity : Nat := 1000

/-- `DRAIN_BATCH_SIZE`. -/
def drainBatchSize : Nat := 50

/-- Where the task is. -/
inductive Task where
  /-- At the `select!`. -/
  | idle
  /-- Taking what is in the channel already. -/
  | collecting (batch : List AnalyticsWrite)
  /-- Waiting for more until the deadline. -/
  | waiting (batch : List AnalyticsWrite)
  | committing (batch : List AnalyticsWrite)
  /-- In the loop of `drain_remaining_and_commit`. -/
  | draining (remaining : List AnalyticsWrite)
  /-- In one of its commits; `last` is the one after the loop. -/
  | flushing (remaining : List AnalyticsWrite) (last : Bool)
  | exited
  deriving DecidableEq, Repr

/-- The store, the channel, the task and its record. -/
structure Writer where
  tables : Tables
  queue : List AnalyticsWrite
  task : Task
  shutdown : Bool
  hungUp : Bool
  poolsClosed : Bool
  shedCounter : Nat
  offered : Nat
  discarded : Nat
  late : Nat
  accepted : List AnalyticsWrite
  batches : List (List (Int × AnalyticsWrite) × Bool)

/-- `SqlxStore::open`: the task has been spawned. -/
def Writer.opened (t : Tables) : Writer where
  tables := t
  queue := []
  task := .idle
  shutdown := false
  hungUp := false
  poolsClosed := false
  shedCounter := 0
  offered := 0
  discarded := 0
  late := 0
  accepted := []
  batches := []

/-- `enqueue_analytics`. -/
def enqueueAnalytics (w : Writer) (e : AnalyticsWrite) : Writer :=
  if w.task = .exited then { w with offered := w.offered + 1, discarded := w.discarded + 1 }
  else if analyticsQueueCapacity ≤ w.queue.length then
    { w with offered := w.offered + 1, shedCounter := w.shedCounter + 1 }
  else
    { w with
      queue := w.queue ++ [e]
      offered := w.offered + 1
      accepted := w.accepted ++ [e]
      late := if w.shutdown then w.late + 1 else w.late }

/-- The task goes on without a transaction. -/
def poll (w : Writer) : Writer :=
  match w.task with
  | .idle =>
    if w.shutdown then { w with task := .draining [] }
    else
      match w.queue with
      | e :: queue => { w with task := .collecting [e], queue := queue }
      | [] => if w.hungUp then { w with task := .exited } else w
  | .collecting batch =>
    if batch.length < drainBatchSize then
      match w.queue with
      | e :: queue => { w with task := .collecting (batch ++ [e]), queue := queue }
      | [] => { w with task := .waiting batch }
    else { w with task := .committing batch }
  | .waiting batch =>
    match w.queue with
    | e :: queue =>
      let batch := batch ++ [e]
      { w with task := if drainBatchSize ≤ batch.length then .committing batch else .waiting batch, queue := queue }
    | [] => if w.hungUp then { w with task := .committing batch } else w
  | .draining remaining =>
    match w.queue with
    | e :: queue =>
      let remaining := remaining ++ [e]
      { w with
        task := if drainBatchSize ≤ remaining.length then .flushing remaining false else .draining remaining
        queue := queue }
    | [] => { w with task := if remaining.isEmpty then .exited else .flushing remaining true }
  | .committing _ | .flushing _ _ | .exited => w

/-- `DRAIN_FLUSH_INTERVAL` has passed. -/
def timeout (w : Writer) : Writer :=
  match w.task with
  | .waiting batch => { w with task := .committing batch }
  | _ => w

/-- The batch is committed or lost, and the task goes on to `next`. -/
def commitTo (w : Writer) (batch : List AnalyticsWrite) (next : Task) (now : Nat → Int) (fault : Option Nat) :
    Writer :=
  let timed := batch.mapIdx fun i e => (now i, e)
  let r := commitBatch w.tables timed (if w.poolsClosed then some 0 else fault)
  { w with tables := r.2, task := next, batches := w.batches ++ [(timed, r.1)] }

/-- The transaction the task is in. -/
def commit (w : Writer) (now : Nat → Int) (fault : Option Nat) : Writer :=
  match w.task with
  | .committing batch => commitTo w batch .idle now fault
  | .flushing remaining last => commitTo w remaining (if last then .exited else .draining []) now fault
  | _ => w

/-- A step of the store, of its surroundings or of the task. -/
inductive Act where
  | enqueue (e : AnalyticsWrite)
  | shutdown
  | hangUp
  | closePools
  | poll
  | timeout
  | commit (now : Nat → Int) (fault : Option Nat)

/-- One step. -/
def step (w : Writer) : Act → Writer
  | .enqueue e => if w.hungUp then w else enqueueAnalytics w e
  | .shutdown => { w with shutdown := true }
  | .hangUp => { w with hungUp := true }
  | .closePools => { w with poolsClosed := true }
  | .poll => poll w
  | .timeout => timeout w
  | .commit now fault => commit w now fault

/-! ## Where the events are -/

/-- The events the task holds. -/
def Task.hand : Task → List AnalyticsWrite
  | .collecting batch | .waiting batch | .committing batch | .draining batch | .flushing batch _ => batch
  | .idle | .exited => []

/-- What the task holds fits a batch, and it commits nothing that is empty. -/
def Task.Fits : Task → Prop
  | .idle | .exited => True
  | .collecting batch | .committing batch => batch ≠ [] ∧ batch.length ≤ drainBatchSize
  | .waiting batch => batch ≠ [] ∧ batch.length < drainBatchSize
  | .draining remaining => remaining.length < drainBatchSize
  | .flushing remaining _ => remaining ≠ [] ∧ remaining.length ≤ drainBatchSize

/-- The task has seen the shutdown. -/
def Task.isEnding : Task → Bool
  | .draining _ | .flushing _ _ => true
  | _ => false

/-- The task has found the channel empty for the last time. -/
def Task.isDone : Task → Bool
  | .flushing _ last => last
  | .exited => true
  | _ => false

/-- The events of the batches, in order. -/
def Writer.committedOrLost (w : Writer) : List AnalyticsWrite := (w.batches.flatMap Prod.fst).map Prod.snd

/-- The events of the batches that were committed, with their times. -/
def Writer.committed (w : Writer) : List (Int × AnalyticsWrite) :=
  (w.batches.filter Prod.snd).flatMap Prod.fst

/-- Every event offered is in one place. -/
structure Accounted (w : Writer) : Prop where
  /-- Accepted events are in a batch, in the hands of the task or in the channel, in this order. -/
  accepted : w.accepted = w.committedOrLost ++ w.task.hand ++ w.queue
  /-- The others have been counted or the task is gone. -/
  offered : w.offered = w.accepted.length + w.shedCounter + w.discarded
  queue_le : w.queue.length ≤ analyticsQueueCapacity
  fits : w.task.Fits
  batches_fit : ∀ b ∈ w.batches, b.1 ≠ [] ∧ b.1.length ≤ drainBatchSize
  ending : w.task.isEnding = true → w.shutdown = true
  /-- What is left in the channel at the end came after the shutdown. -/
  left : w.task.isDone = true → w.queue.length ≤ w.late
  discarded : w.discarded ≠ 0 → w.task = .exited

theorem fits_draining_nil : (Task.draining []).Fits := by
  unfold Task.Fits drainBatchSize
  decide

theorem map_snd_mapIdx (batch : List AnalyticsWrite) (now : Nat → Int) :
    (batch.mapIdx fun i e => (now i, e)).map Prod.snd = batch :=
  List.ext_getElem (by simp) (by simp)

section Steps

variable {w : Writer}

theorem accounted_enqueueAnalytics (h : Accounted w) (e : AnalyticsWrite) :
    Accounted (enqueueAnalytics w e) := by
  unfold enqueueAnalytics
  split
  · rename_i hexited
    exact { h with
      offered := congrArg (· + 1) h.offered
      discarded := fun _ => hexited }
  · rename_i hrunning
    split
    · exact { h with
        offered := by
          have ho := h.offered
          show w.offered + 1 = w.accepted.length + (w.shedCounter + 1) + w.discarded
          omega }
    · rename_i hroom
      exact { h with
        accepted := by
          show w.accepted ++ [e] = w.committedOrLost ++ w.task.hand ++ (w.queue ++ [e])
          rw [h.accepted, List.append_assoc _ w.queue]
        offered := by
          have ho := h.offered
          show w.offered + 1 = (w.accepted ++ [e]).length + w.shedCounter + w.discarded
          rw [List.length_append, List.length_singleton]
          omega
        queue_le := by
          show (w.queue ++ [e]).length ≤ analyticsQueueCapacity
          rw [List.length_append, List.length_singleton]
          omega
        left := fun hdone => by
          have hleft := h.left hdone
          have hend : w.shutdown = true := by
            refine h.ending ?_
            cases htask : w.task with
            | flushing remaining last => rfl
            | exited => exact absurd htask hrunning
            | _ => rw [htask] at hdone; cases hdone
          show (w.queue ++ [e]).length ≤ if w.shutdown then w.late + 1 else w.late
          rw [if_pos hend, List.length_append, List.length_singleton]
          omega }

/-- The task goes somewhere else with what it holds. -/
theorem Accounted.goTo (h : Accounted w) {next : Task} (hand : next.hand = w.task.hand) (fits : next.Fits)
    (ending : next.isEnding = true → w.shutdown = true) (left : next.isDone = true → w.queue.length ≤ w.late)
    (running : w.task ≠ .exited) : Accounted { w with task := next } :=
  { h with
    accepted := by
      show w.accepted = w.committedOrLost ++ next.hand ++ w.queue
      rw [hand]
      exact h.accepted
    fits := fits
    ending := ending
    left := left
    discarded := fun hd => absurd (h.discarded hd) running }

/-- The task takes one event more. -/
theorem Accounted.take (h : Accounted w) {e : AnalyticsWrite} {queue : List AnalyticsWrite} (hq : w.queue = e :: queue)
    {next : Task} (hand : next.hand = w.task.hand ++ [e]) (fits : next.Fits)
    (ending : next.isEnding = true → w.shutdown = true) (left : next.isDone = false)
    (running : w.task ≠ .exited) : Accounted { w with task := next, queue := queue } :=
  { h with
    accepted := by
      show w.accepted = w.committedOrLost ++ next.hand ++ queue
      rw [h.accepted, hand, hq]
      simp only [List.append_assoc, List.singleton_append]
    queue_le := by
      have hle := h.queue_le
      rw [hq, List.length_cons] at hle
      show queue.length ≤ analyticsQueueCapacity
      omega
    fits := fits
    ending := ending
    left := fun hdone => by
      rw [show next.isDone = false from left] at hdone
      cases hdone
    discarded := fun hd => absurd (h.discarded hd) running }

theorem accounted_poll (h : Accounted w) : Accounted (poll w) := by
  have hfits := h.fits
  unfold poll
  cases htask : w.task with
  | idle =>
    have hrun : w.task ≠ .exited := by simp [htask]
    dsimp only
    split
    · rename_i hdown
      exact h.goTo (by rw [htask]; rfl) fits_draining_nil (fun _ => hdown) (fun hd => by cases hd) hrun
    · split
      · rename_i e queue hq
        exact h.take hq (by rw [htask]; rfl) (by simp [Task.Fits, drainBatchSize]) (fun he => by cases he) rfl hrun
      · rename_i hq
        split
        · exact h.goTo (by rw [htask]; rfl) trivial (fun he => by cases he) (fun _ => by simp [hq]) hrun
        · exact h
  | collecting batch =>
    have hrun : w.task ≠ .exited := by simp [htask]
    rw [htask] at hfits
    dsimp only
    split
    · rename_i hroom
      split
      · rename_i e queue hq
        refine h.take hq (by rw [htask]; rfl) ⟨by simp, ?_⟩ (fun he => by cases he) rfl hrun
        rw [List.length_append, List.length_singleton]
        exact hroom
      · exact h.goTo (by rw [htask]; rfl) ⟨hfits.1, hroom⟩ (fun he => by cases he) (fun hd => by cases hd) hrun
    · exact h.goTo (by rw [htask]; rfl) hfits (fun he => by cases he) (fun hd => by cases hd) hrun
  | waiting batch =>
    have hrun : w.task ≠ .exited := by simp [htask]
    rw [htask] at hfits
    dsimp only
    split
    · rename_i e queue hq
      have hlen : (batch ++ [e]).length ≤ drainBatchSize := by
        rw [List.length_append, List.length_singleton]
        exact hfits.2
      split
      · exact h.take hq (by rw [htask]; rfl) ⟨by simp, hlen⟩ (fun he => by cases he) rfl hrun
      · rename_i hroom
        exact h.take hq (by rw [htask]; rfl) ⟨by simp, Nat.lt_of_not_le hroom⟩ (fun he => by cases he) rfl hrun
    · split
      · exact h.goTo (by rw [htask]; rfl) ⟨hfits.1, le_of_lt hfits.2⟩ (fun he => by cases he)
          (fun hd => by cases hd) hrun
      · exact h
  | draining remaining =>
    have hrun : w.task ≠ .exited := by simp [htask]
    have hdown : w.shutdown = true := h.ending (by rw [htask]; rfl)
    rw [htask] at hfits
    dsimp only
    split
    · rename_i e queue hq
      have hlen : (remaining ++ [e]).length ≤ drainBatchSize := by
        rw [List.length_append, List.length_singleton]
        exact hfits
      split
      · exact h.take hq (by rw [htask]; rfl) ⟨by simp, hlen⟩ (fun _ => hdown) rfl hrun
      · rename_i hroom
        exact h.take hq (by rw [htask]; rfl) (Nat.lt_of_not_le hroom) (fun _ => hdown) rfl hrun
    · rename_i hq
      have hleft : w.queue.length ≤ w.late := by simp [hq]
      cases remaining with
      | nil => exact h.goTo (by rw [htask]; rfl) trivial (fun _ => hdown) (fun _ => hleft) hrun
      | cons e rest =>
        exact h.goTo (by rw [htask]; rfl) ⟨by simp, le_of_lt hfits⟩ (fun _ => hdown) (fun _ => hleft) hrun
  | committing batch => exact h
  | flushing remaining last => exact h
  | exited => exact h

theorem accounted_timeout (h : Accounted w) : Accounted (timeout w) := by
  unfold timeout
  split
  · rename_i batch htask
    have hfits := h.fits
    rw [htask] at hfits
    exact h.goTo (by rw [htask]; rfl) ⟨hfits.1, le_of_lt hfits.2⟩ (fun he => by cases he) (fun hd => by cases hd)
      (by simp [htask])
  · exact h

/-- A transaction takes the batch out of the hands of the task, whether it goes through or not. -/
theorem accounted_commitTo (h : Accounted w) (next : Task) (hand : next.hand = [])
    (held : w.task.hand ≠ [] ∧ w.task.hand.length ≤ drainBatchSize) (fits : next.Fits)
    (ending : next.isEnding = true → w.shutdown = true) (left : next.isDone = true → w.queue.length ≤ w.late)
    (running : w.task ≠ .exited) (now : Nat → Int) (fault : Option Nat) :
    Accounted (commitTo w w.task.hand next now fault) :=
  { h with
    accepted := by
      show w.accepted = ((w.batches ++ [_]).flatMap Prod.fst).map Prod.snd ++ next.hand ++ w.queue
      rw [h.accepted, hand, List.append_nil, List.flatMap_append, List.map_append]
      congr 2
      rw [List.flatMap_singleton, map_snd_mapIdx]
    fits := fits
    batches_fit := fun b hb => by
      obtain hb | hb := List.mem_append.mp hb
      · exact h.batches_fit b hb
      · rw [List.mem_singleton.mp hb]
        exact ⟨by simpa using held.1, by simpa using held.2⟩
    ending := ending
    left := left
    discarded := fun hd => absurd (h.discarded hd) running }

theorem accounted_commit (h : Accounted w) (now : Nat → Int) (fault : Option Nat) :
    Accounted (commit w now fault) := by
  have hfits := h.fits
  unfold commit
  cases htask : w.task with
  | committing batch =>
    rw [htask] at hfits
    have hto := accounted_commitTo h .idle rfl (by rw [htask]; exact hfits) trivial (fun he => by cases he)
      (fun hd => by cases hd) (by simp [htask]) now fault
    rwa [htask] at hto
  | flushing remaining last =>
    rw [htask] at hfits
    have hdown : w.shutdown = true := h.ending (by rw [htask]; rfl)
    have hleft : last = true → w.queue.length ≤ w.late := fun hl => h.left (by rw [htask]; exact hl)
    have hto := accounted_commitTo h (if last then .exited else .draining []) (by split <;> rfl)
      (by rw [htask]; exact hfits) (by cases last; exacts [fits_draining_nil, trivial]) (fun _ => hdown)
      (fun hd => by
        cases last with
        | true => exact hleft rfl
        | false => cases hd)
      (by simp [htask]) now fault
    rwa [htask] at hto
  | _ => exact h

theorem accounted_step (h : Accounted w) (a : Act) : Accounted (step w a) := by
  cases a with
  | enqueue e =>
    show Accounted (if w.hungUp = true then w else enqueueAnalytics w e)
    split
    · exact h
    · exact accounted_enqueueAnalytics h e
  | shutdown => exact { h with ending := fun _ => rfl }
  | hangUp => exact { h with }
  | closePools => exact { h with }
  | poll => exact accounted_poll h
  | timeout => exact accounted_timeout h
  | commit now fault => exact accounted_commit h now fault

end Steps

theorem accounted_opened (t : Tables) : Accounted (Writer.opened t) where
  accepted := rfl
  offered := rfl
  queue_le := Nat.zero_le _
  fits := trivial
  batches_fit := fun b hb => by cases hb
  ending := fun he => by cases he
  left := fun hd => by cases hd
  discarded := fun hd => absurd rfl hd

/-- **Nothing offered is lost from sight, doubled or put out of order**, whatever the steps. -/
theorem drain_accounted (t : Tables) (acts : List Act) : Accounted (acts.foldl step (Writer.opened t)) :=
  Runs.invariant (fun (w : Writer) a (h : Accounted w) => accounted_step h a) (accounted_opened t) acts

/-! ## What the tables hold -/

/-- A commit of a step: the batch, its times and its fault, where the task is in one. -/
theorem step_tables (w : Writer) (a : Act) :
    ((step w a).tables = w.tables ∧ (step w a).batches = w.batches) ∨
      ∃ now fault batch next, a = .commit now fault ∧ step w a = commitTo w batch next now fault := by
  cases a with
  | enqueue e =>
    left
    simp only [step, enqueueAnalytics]
    split
    · exact ⟨rfl, rfl⟩
    · split
      · exact ⟨rfl, rfl⟩
      · split <;> exact ⟨rfl, rfl⟩
  | shutdown => exact .inl ⟨rfl, rfl⟩
  | hangUp => exact .inl ⟨rfl, rfl⟩
  | closePools => exact .inl ⟨rfl, rfl⟩
  | poll =>
    left
    simp only [step, poll]
    repeat' split
    all_goals exact ⟨rfl, rfl⟩
  | timeout =>
    left
    simp only [step, timeout]
    split <;> exact ⟨rfl, rfl⟩
  | commit now fault =>
    cases htask : w.task with
    | committing batch => exact .inr ⟨now, fault, batch, .idle, rfl, by simp [step, commit, htask]⟩
    | flushing remaining last =>
      exact .inr ⟨now, fault, remaining, if last then .exited else .draining [], rfl, by simp [step, commit, htask]⟩
    | _ => exact .inl (by simp [step, commit, htask])

theorem committed_append (w : Writer) (b : List (Int × AnalyticsWrite)) (ok : Bool) :
    ((w.batches ++ [(b, ok)]).filter Prod.snd).flatMap Prod.fst = w.committed ++ if ok then b else [] := by
  cases ok <;> simp [Writer.committed]

theorem applied_step {t : Tables} {w : Writer} (h : w.tables = w.committed.foldl effect t) (a : Act) :
    (step w a).tables = (step w a).committed.foldl effect t := by
  obtain ⟨ht, hb⟩ | ⟨now, fault, batch, next, -, hto⟩ := step_tables w a
  · rw [ht, Writer.committed, hb]
    exact h
  · rw [hto]
    generalize hfault : (if w.poolsClosed then some 0 else fault) = fault'
    have hcommitted : (commitTo w batch next now fault).committed = w.committed ++
        if (commitBatch w.tables (batch.mapIdx fun i e => (now i, e)) fault').1 then
          batch.mapIdx fun i e => (now i, e) else [] := by
      subst hfault
      exact committed_append w _ _
    have htables : (commitTo w batch next now fault).tables =
        (commitBatch w.tables (batch.mapIdx fun i e => (now i, e)) fault').2 := by
      subst hfault
      rfl
    rw [hcommitted, htables]
    split
    · rename_i hok
      rw [commitBatch_effect hok, List.foldl_append, h]
    · rename_i hno
      rw [commitBatch_false (Bool.eq_false_iff.mpr hno), List.append_nil, h]

theorem run_tables (t : Tables) (acts : List Act) :
    (acts.foldl step (Writer.opened t)).tables = (acts.foldl step (Writer.opened t)).committed.foldl effect t := by
  have hstep : ∀ (w : Writer) (a : Act), w.tables = w.committed.foldl effect t →
      (step w a).tables = (step w a).committed.foldl effect t := fun _ a h => applied_step h a
  exact Runs.invariant hstep rfl acts

/-- **The tables are what the committed batches make of them**, and the other batches have left nothing. -/
theorem run_replayed (t : Tables) (acts : List Act) :
    Replayed (acts.foldl step (Writer.opened t)).committed t (acts.foldl step (Writer.opened t)).tables := by
  rw [run_tables]
  exact foldl_replayed _ t

/-! ## Which batches are lost -/

/-- Nothing fails but what a constraint refuses. -/
def Act.isCalm : Act → Bool
  | .closePools => false
  | .commit _ fault => fault.isNone
  | _ => true

/-- A batch is committed exactly when all of its events are admissible after those committed before it. -/
def Judged (t : Tables) (batches : List (List (Int × AnalyticsWrite) × Bool)) : Prop :=
  ∀ before b after, batches = before ++ b :: after →
    (b.2 = true ↔ ∀ pre e post, b.1 = pre ++ e :: post →
      Admissible t ((before.filter Prod.snd).flatMap Prod.fst ++ pre) e.2)

theorem admissible_foldl {t : Tables} {es pre : List (Int × AnalyticsWrite)} (e : AnalyticsWrite) :
    Admissible (es.foldl effect t) pre e ↔ Admissible t (es ++ pre) e := by
  cases e with
  | observationPhaseMetric featureCycle phaseName row =>
    simp only [Admissible, isSome_observationMetrics, or_assoc, List.mem_append, or_and_right, exists_or]
  | _ => exact Iff.rfl

/-- In a run where nothing else fails, the batches so far are judged, and the tables are sound. -/
structure Calm (t : Tables) (w : Writer) : Prop where
  sound : Sound w.tables
  tables : w.tables = w.committed.foldl effect t
  judged : Judged t w.batches
  poolsOpen : w.poolsClosed = false

theorem judged_append {t : Tables} {batches : List (List (Int × AnalyticsWrite) × Bool)} (h : Judged t batches)
    {b : List (Int × AnalyticsWrite) × Bool}
    (hb : b.2 = true ↔ ∀ pre e post, b.1 = pre ++ e :: post →
      Admissible t ((batches.filter Prod.snd).flatMap Prod.fst ++ pre) e.2) : Judged t (batches ++ [b]) := by
  intro before b' after heq
  obtain hnil | ⟨after', last, rfl⟩ := List.eq_nil_or_concat after
  · subst hnil
    obtain ⟨rfl, hlast⟩ := List.append_inj' heq rfl
    cases hlast
    exact hb
  · rw [List.concat_eq_append, ← List.cons_append, ← List.append_assoc] at heq
    exact h before b' after' (List.append_inj' heq rfl).1

theorem calm_step {t : Tables} {w : Writer} (h : Calm t w) {a : Act} (ha : a.isCalm = true) : Calm t (step w a) := by
  have hopen : (step w a).poolsClosed = false := by
    have hclosed := h.poolsOpen
    cases a with
    | enqueue e =>
      simp only [step, enqueueAnalytics]
      repeat' split
      all_goals exact hclosed
    | shutdown => exact hclosed
    | hangUp => exact hclosed
    | closePools => cases ha
    | poll =>
      simp only [step, poll]
      repeat' split
      all_goals exact hclosed
    | timeout =>
      simp only [step, timeout]
      split <;> exact hclosed
    | commit now fault =>
      simp only [step, commit]
      split <;> exact hclosed
  obtain ⟨ht, hb⟩ | ⟨now, fault, batch, next, rfl, hto⟩ := step_tables w a
  · exact ⟨by rw [ht]; exact h.sound, applied_step h.tables a, by rw [hb]; exact h.judged, hopen⟩
  · have hfault : (if w.poolsClosed then some 0 else fault) = none := by
      rw [h.poolsOpen]
      cases fault with
      | none => rfl
      | some n => cases ha
    have htables : (step w (.commit now fault)).tables =
        (commitBatch w.tables (batch.mapIdx fun i e => (now i, e)) none).2 := by
      rw [hto, ← hfault]
      rfl
    have hbatches : (step w (.commit now fault)).batches = w.batches ++ [(batch.mapIdx fun i e => (now i, e),
        (commitBatch w.tables (batch.mapIdx fun i e => (now i, e)) none).1)] := by
      rw [hto, ← hfault]
      rfl
    refine ⟨?_, applied_step h.tables _, ?_, hopen⟩
    · rw [htables]
      exact sound_commitBatch h.sound
    · rw [hbatches]
      refine judged_append h.judged ?_
      rw [commitBatch_commits_iff h.sound]
      simp only [h.tables, admissible_foldl]
      rfl

/-- **Where nothing else fails, a batch is lost exactly when one of its events is not admissible** after the batches
committed before it: the other events of the batch go with that one, and no other batch does. -/
theorem run_commits_iff {t : Tables} (hsound : Sound t) {acts : List Act} (hcalm : ∀ a ∈ acts, a.isCalm = true) :
    Judged t (acts.foldl step (Writer.opened t)).batches := by
  have hcond : Runs.Throughout step (fun _ a => a.isCalm = true) (Writer.opened t) acts := by
    generalize Writer.opened t = w
    induction acts generalizing w with
    | nil => trivial
    | cons a acts ih =>
      exact ⟨hcalm a List.mem_cons_self, ih (fun a' h => hcalm a' (List.mem_cons_of_mem a h)) _⟩
  have hstart : Calm t (Writer.opened t) := ⟨hsound, rfl, fun before b after h => by simp [Writer.opened] at h, rfl⟩
  exact (hcond.invariant (fun w a (h : Calm t w) ha => calm_step h ha) hstart).judged

/-- A pair of an entry with itself takes the other pair of its batch with it. -/
theorem run_commits_iff_self_pair :
    (([Act.enqueue (.coAccess 1 2), .enqueue (.coAccess 3 3), .poll, .poll, .poll, .timeout,
      .commit (fun _ => 0) none].foldl step (Writer.opened Tables.empty)).batches.map Prod.snd) = [false] := by
  have hjudged : Judged Tables.empty [([(0, .coAccess 1 2), (0, .coAccess 3 3)],
      (commitBatch Tables.empty [(0, .coAccess 1 2), (0, .coAccess 3 3)] none).1)] :=
    run_commits_iff (fun k hk => by cases hk) (show ∀ a ∈ [Act.enqueue (.coAccess 1 2), .enqueue (.coAccess 3 3),
      .poll, .poll, .poll, .timeout, .commit (fun _ => 0) none], a.isCalm = true by decide)
  have hlost : (commitBatch Tables.empty [(0, .coAccess 1 2), (0, .coAccess 3 3)] none).1 = false := by
    rw [Bool.eq_false_iff]
    intro hok
    have hself : asI64 3 < asI64 3 :=
      (hjudged [] _ [] rfl).mp hok [(0, .coAccess 1 2)] (0, .coAccess 3 3) [] rfl
    exact lt_irrefl _ hself
  exact congrArg (fun ok => [ok]) hlost

/-! ## The end of a run -/

/-- A step of the task. -/
def Act.isOwn : Act → Bool
  | .poll | .timeout | .commit _ _ => true
  | _ => false

/-- The task can take the step. -/
def able (w : Writer) : Act → Bool
  | .poll =>
    match w.task with
    | .idle => w.shutdown || w.hungUp || !w.queue.isEmpty
    | .waiting _ => w.hungUp || !w.queue.isEmpty
    | .collecting _ | .draining _ => true
    | _ => false
  | .timeout =>
    match w.task with
    | .waiting _ => true
    | _ => false
  | .commit _ _ =>
    match w.task with
    | .committing _ | .flushing _ _ => true
    | _ => false
  | _ => true

/-- An upper bound of the steps the task still takes after a shutdown. -/
def Writer.remaining (w : Writer) : Nat :=
  match w.task with
  | .idle => 2 * w.queue.length + 2
  | .collecting _ => 2 * w.queue.length + 5
  | .waiting _ => 2 * w.queue.length + 4
  | .committing _ => 2 * w.queue.length + 3
  | .draining [] => 2 * w.queue.length + 1
  | .draining (_ :: _) => 2 * w.queue.length + 2
  | .flushing _ false => 2 * w.queue.length + 2
  | .flushing _ true => 1
  | .exited => 0

theorem remaining_le (w : Writer) : w.remaining ≤ 2 * w.queue.length + 5 := by
  unfold Writer.remaining
  split <;> omega

/-- After a shutdown, every step the task can take brings it nearer to its end. -/
theorem remaining_poll {w : Writer} (hdown : w.shutdown = true) (hable : able w .poll = true) :
    (poll w).remaining < w.remaining := by
  unfold poll
  cases htask : w.task with
  | idle =>
    dsimp only
    rw [if_pos hdown]
    simp [Writer.remaining, htask]
  | collecting batch =>
    dsimp only
    split
    · split
      · rename_i hq
        simp [Writer.remaining, htask, hq]
      · simp [Writer.remaining, htask]
    · simp [Writer.remaining, htask]
  | waiting batch =>
    dsimp only
    split
    · rename_i hq
      split
      · simp only [Writer.remaining, htask, hq, List.length_cons]
        omega
      · simp only [Writer.remaining, htask, hq, List.length_cons]
        omega
    · rename_i hq
      simp only [able, htask, hq, List.isEmpty_nil, Bool.not_true, Bool.or_false] at hable
      rw [if_pos hable]
      simp [Writer.remaining, htask]
  | draining remaining =>
    dsimp only
    split
    · rename_i hq
      split
      all_goals cases remaining <;> simp [Writer.remaining, htask, hq]
      all_goals omega
    · rename_i hq
      cases remaining <;> simp [Writer.remaining, htask, hq]
  | _ => simp [able, htask] at hable

theorem remaining_timeout {w : Writer} (hable : able w .timeout = true) : (timeout w).remaining < w.remaining := by
  unfold timeout
  cases htask : w.task with
  | waiting batch => simp [Writer.remaining, htask]
  | _ => simp [able, htask] at hable

theorem remaining_commit {w : Writer} {now : Nat → Int} {fault : Option Nat}
    (hable : able w (.commit now fault) = true) : (commit w now fault).remaining < w.remaining := by
  unfold commit commitTo
  cases htask : w.task with
  | committing batch => simp [Writer.remaining, htask]
  | flushing remaining last => cases last <;> simp [Writer.remaining, htask]
  | _ => simp [able, htask] at hable

/-- A step after the shutdown: no event is offered, and the task takes only steps it can take. -/
def Ending (w : Writer) (a : Act) : Prop := able w a = true ∧ ∀ e, a ≠ .enqueue e

theorem remaining_step {w : Writer} (hdown : w.shutdown = true) {a : Act} (ha : Ending w a) :
    (step w a).remaining + (if a.isOwn then 1 else 0) ≤ w.remaining := by
  cases a with
  | enqueue e => exact absurd rfl (ha.2 e)
  | shutdown => exact Nat.le_refl _
  | hangUp => exact Nat.le_refl _
  | closePools => exact Nat.le_refl _
  | poll => exact remaining_poll hdown ha.1
  | timeout => exact remaining_timeout ha.1
  | commit now fault => exact remaining_commit ha.1

/-- What a step leaves alone when no event is offered. -/
theorem step_frame (w : Writer) {a : Act} (ha : ∀ e, a ≠ .enqueue e) :
    (step w a).accepted = w.accepted ∧ (step w a).late = w.late ∧ (w.shutdown = true → (step w a).shutdown = true) := by
  cases a with
  | enqueue e => exact absurd rfl (ha e)
  | shutdown => exact ⟨rfl, rfl, fun _ => rfl⟩
  | hangUp => exact ⟨rfl, rfl, id⟩
  | closePools => exact ⟨rfl, rfl, id⟩
  | poll =>
    simp only [step, poll]
    repeat' split
    all_goals exact ⟨rfl, rfl, id⟩
  | timeout =>
    simp only [step, timeout]
    split <;> exact ⟨rfl, rfl, id⟩
  | commit now fault =>
    simp only [step, commit]
    split <;> exact ⟨rfl, rfl, id⟩

/-- A task that can take no step after a shutdown has ended. -/
theorem exited_of_stuck {w : Writer} (hdown : w.shutdown = true) (hstuck : ∀ a, a.isOwn = true → able w a = false) :
    w.task = .exited := by
  have hpoll := hstuck .poll rfl
  have htimeout := hstuck .timeout rfl
  have hcommit := hstuck (.commit (fun _ => 0) none) rfl
  cases htask : w.task with
  | exited => rfl
  | idle => simp [able, htask, hdown] at hpoll
  | collecting batch => simp [able, htask] at hpoll
  | draining remaining => simp [able, htask] at hpoll
  | waiting batch => simp [able, htask] at htimeout
  | committing batch => simp [able, htask] at hcommit
  | flushing remaining last => simp [able, htask] at hcommit

theorem able_of_exited {w : Writer} {a : Act} (hown : a.isOwn = true) (hexited : w.task = .exited) :
    able w a = false := by
  cases a with
  | poll => simp only [able, hexited]
  | timeout => simp only [able, hexited]
  | commit now fault => simp only [able, hexited]
  | _ => simp [Act.isOwn] at hown

/-- The run after a shutdown: how many steps the task takes, and what stays as it was. -/
theorem ending_run {w : Writer} (hdown : w.shutdown = true) {acts : List Act}
    (hrun : Runs.Throughout step Ending w acts) :
    acts.countP Act.isOwn + (acts.foldl step w).remaining ≤ w.remaining ∧ (acts.foldl step w).shutdown = true ∧
      (acts.foldl step w).accepted = w.accepted ∧ (acts.foldl step w).late = w.late := by
  induction acts generalizing w with
  | nil => exact ⟨by simp, hdown, rfl, rfl⟩
  | cons a acts ih =>
    obtain ⟨ha, hrest⟩ := hrun
    have hstep := remaining_step hdown ha
    obtain ⟨haccepted, hlate, hdown'⟩ := step_frame w ha.2
    obtain ⟨hcount, hend, hacc, hlat⟩ := ih (hdown' hdown) hrest
    refine ⟨?_, hend, hacc.trans haccepted, hlat.trans hlate⟩
    rw [List.countP_cons]
    simp only [List.foldl_cons]
    omega

/-- **After a shutdown the task ends**, whatever fails: it takes at most twice as many steps as there are events in the
channel, and five more. Once it can take none, everything accepted before the shutdown is in a batch. -/
theorem shutdown_exits (t : Tables) (before acts : List Act)
    (hdown : (before.foldl step (Writer.opened t)).shutdown = true)
    (hrun : Runs.Throughout step Ending (before.foldl step (Writer.opened t)) acts) :
    acts.countP Act.isOwn ≤ 2 * (before.foldl step (Writer.opened t)).queue.length + 5 ∧
      ((∀ a, a.isOwn = true → able ((before ++ acts).foldl step (Writer.opened t)) a = false) →
        ((before ++ acts).foldl step (Writer.opened t)).task = .exited ∧
        ∃ lost, lost.length ≤ (before.foldl step (Writer.opened t)).late ∧
          (before.foldl step (Writer.opened t)).accepted =
            ((before ++ acts).foldl step (Writer.opened t)).committedOrLost ++ lost) := by
  obtain ⟨hcount, hend, hacc, hlate⟩ := ending_run hdown hrun
  have hle := remaining_le (before.foldl step (Writer.opened t))
  have hall : Accounted ((before ++ acts).foldl step (Writer.opened t)) :=
    Runs.invariant (fun (w : Writer) a (h : Accounted w) => accounted_step h a) (accounted_opened t) (before ++ acts)
  rw [List.foldl_append] at hall ⊢
  refine ⟨by omega, fun hstuck => ?_⟩
  have hexited := exited_of_stuck hend hstuck
  refine ⟨hexited, (acts.foldl step (before.foldl step (Writer.opened t))).queue, ?_, ?_⟩
  · rw [← hlate]
    exact hall.left (by rw [hexited]; rfl)
  · have hwhere := hall.accepted
    rw [hexited, hacc] at hwhere
    simpa [Task.hand] using hwhere

/-- An event of the last moment is written, and the task is done after that. -/
theorem shutdown_exits_one : ([Act.enqueue (.coAccess 1 2), .shutdown, .poll, .poll, .poll,
      .commit (fun _ => 7) none].foldl step (Writer.opened Tables.empty)).task = .exited :=
  ((shutdown_exits Tables.empty [.enqueue (.coAccess 1 2), .shutdown]
    [.poll, .poll, .poll, .commit (fun _ => 7) none] rfl
    ⟨⟨rfl, fun _ h => by cases h⟩, ⟨rfl, fun _ h => by cases h⟩, ⟨rfl, fun _ h => by cases h⟩,
      ⟨rfl, fun _ h => by cases h⟩, trivial⟩).2 fun _ hown => able_of_exited hown rfl).1

end Unimatrix.Analytics
