import Mathlib.Algebra.BigOperators.Group.Finset.Basic
import Mathlib.Algebra.Order.BigOperators.Group.Finset
import Unimatrix.Lib.Interleave
import Unimatrix.Services.PendingAnalysis
import Unimatrix.Session.Registry

/-!
# The consumers of signals

Model of `insert_signal` and `drain_signals` (`signal.rs`) and of `write_signals_to_queue`, `run_confidence_consumer`
and `run_retrospective_consumer` (`listener.rs`), as `process_session_close` and `run_maintenance` (`status.rs`) run
them, beside the reviews and the ticks that empty the accumulator: calls that take turns, and may fail or die between
any two of their operations.

* What is done in one transaction, or under the lock, is one operation. The numbers of rows are left out: the queue is
  in their order. What `record_usage_with_confidence` does to the entries is left out.
* `inserted` and `jobs` are no variables of the program: a job is a drain, with what was counted of it.

**`signals_once`**: a signal is in the queue or was drained, once. **`signals_counted`**: of what was drained no session
is counted twice for an entry, and where all calls have ended every one is counted once.
-/

namespace Unimatrix.SignalConsumers

open Interleave PendingAnalysis

/-! ## The code -/

/-- `SignalType`. -/
inductive SignalType where
  | helpful
  | flagged
  deriving DecidableEq

/-- `SignalSource`. -/
inductive SignalSource where
  | implicitOutcome
  | implicitRework
  deriving DecidableEq

/-- `SignalRecord`. -/
structure SignalRecord where
  sessionId : String
  createdAt : Nat
  entryIds : List Nat
  signalType : SignalType
  signalSource : SignalSource
  deriving DecidableEq

/-- A drain, and what was counted of it. -/
structure Job where
  signalType : SignalType
  featureCycle : String
  signals : List SignalRecord
  credit : Measure → Nat → Nat

/-- The queue, the accumulator, and the record of the run. -/
structure Shared where
  queue : List SignalRecord
  acc : Accumulator
  inserted : List SignalRecord
  jobs : Nat → Option Job

/-- How an operation goes. -/
structure Outcome where
  ok : Bool
  now : Nat
  order : Order
  title : String
  category : String

/-- The entries that are fetched. -/
abbrev Fetched : Type := List (Nat × String × String)

/-- The operations; `job` is the place of the drain in the record. -/
inductive Op where
  | insertSignal (sessionId : String) (entryIds : List Nat) (signalType : SignalType) (signalSource : SignalSource)
  | drainSignals (job : Nat) (signalType : SignalType) (featureCycle : String)
  | recordUsage (entryIds : List Nat)
  /-- `entry_store.get`. -/
  | get (entryId : Nat)
  | firstPass (job : Nat) (featureCycle : String) (signals : List SignalRecord)
  | thirdPass (job : Nat) (featureCycle : String) (signals : List SignalRecord) (fetched : Fetched)
      (counted : List Mention)
  /-- Step 2 of `run_retrospective_consumer`. -/
  | absent (featureCycle : String) (signals : List SignalRecord)
  | flaggedPass (job : Nat) (featureCycle : String) (signals : List SignalRecord) (fetched : Fetched)
  | drainFor (featureCycle : String)
  | evictStale (ttl : Nat)

/-- What an operation answers. -/
inductive Answer where
  | failed
  | done
  | signals (signals : List SignalRecord)
  | entry (title category : String)
  | passed (counted : List Mention) (needing : List Nat)
  | ids (ids : List Nat)

/-- What the loops over the signals and their entries go through. -/
def mentions (signals : List SignalRecord) : List Mention :=
  signals.flatMap fun signal => signal.entryIds.map fun entryId => (signal.sessionId, entryId)

/-- The map of the entries that are fetched; what was fetched last comes first. -/
def Fetched.get (fetched : Fetched) (entryId : Nat) : Option (String × String) :=
  (fetched.find? fun p => decide (p.1 = entryId)).map Prod.snd

/-- The credit of the passes over helpful signals. -/
def helpfulCredit (counted : List Mention) (k : Measure) (entryId : Nat) : Nat :=
  if k = .successSessions then countedFor counted entryId else 0

/-- The credit of the pass over flagged signals. -/
def flaggedCredit (counted ms : List Mention) (k : Measure) (entryId : Nat) : Nat :=
  match k with
  | .successSessions => 0
  | .reworkSessions => countedFor counted entryId
  | .reworkFlags => mentionsOf ms entryId

/-- The record with what is counted of a drain. -/
def credited (jobs : Nat → Option Job) (job : Nat) (credit : Measure → Nat → Nat) : Nat → Option Job :=
  Function.update jobs job ((jobs job).map fun j => { j with credit := credit })

/-- What an operation does, and what it answers. -/
def exec (a : Op) (o : Outcome) (s : Shared) : Shared × Answer :=
  match a with
  | .insertSignal sessionId entryIds signalType signalSource =>
    let signal : SignalRecord := ⟨sessionId, o.now, entryIds, signalType, signalSource⟩
    if o.ok then ({ s with queue := s.queue ++ [signal], inserted := s.inserted ++ [signal] }, .done)
    else (s, .failed)
  | .drainSignals job signalType featureCycle =>
    let drained := s.queue.filter fun signal => decide (signal.signalType = signalType)
    if o.ok then
      ({ s with
        queue := s.queue.filter fun signal => !decide (signal.signalType = signalType)
        jobs := Function.update s.jobs job (some ⟨signalType, featureCycle, drained, fun _ _ => 0⟩) }, .signals drained)
    else (s, .failed)
  | .recordUsage _ => (s, if o.ok then .done else .failed)
  | .get _ => (s, if o.ok then .entry o.title o.category else .failed)
  | .firstPass job featureCycle signals =>
    let p := (mentions signals).foldl (firstStep featureCycle) ⟨s.acc, [], []⟩
    ({ s with acc := p.acc, jobs := credited s.jobs job (helpfulCredit p.counted) }, .passed p.counted p.needing)
  | .thirdPass job featureCycle signals fetched counted =>
    let p := (mentions signals).foldl (thirdStep featureCycle fetched.get o.order o.now) ⟨s.acc, counted, []⟩
    ({ s with acc := p.acc, jobs := credited s.jobs job (helpfulCredit p.counted) }, .done)
  | .absent featureCycle signals =>
    (s, .ids (((mentions signals).map Prod.snd).filter fun entryId => !s.acc.contains featureCycle entryId).dedup)
  | .flaggedPass job featureCycle signals fetched =>
    let p := (mentions signals).foldl (flaggedStep featureCycle fetched.get o.order o.now) ⟨s.acc, [], []⟩
    ({ s with
      acc := p.acc, jobs := credited s.jobs job (flaggedCredit p.counted (mentions signals)) }, .done)
  | .drainFor featureCycle => ({ s with acc := (s.acc.drainFor featureCycle).1 }, .done)
  | .evictStale ttl => ({ s with acc := s.acc.evictStale o.now ttl }, .done)

/-- A call, as it runs. -/
abbrev Run (A : Type) : Type := Prog Op Answer A

/-- `write_signals_to_queue`. -/
def writeSignalsToQueue (output : SignalOutput) : Run Unit :=
  match output.finalOutcome with
  | .success =>
    if output.helpfulEntryIds = [] then return ()
    else do
      let _ ← perform (.insertSignal output.sessionId output.helpfulEntryIds .helpful .implicitOutcome)
      return ()
  | .rework =>
    if output.flaggedEntryIds = [] then return ()
    else do
      let _ ← perform (.insertSignal output.sessionId output.flaggedEntryIds .flagged .implicitRework)
      return ()
  | .abandoned => return ()

/-- The loop over the sessions that are swept. -/
def writeAll : List SignalOutput → Run Unit
  | [] => return ()
  | output :: outputs => do
    writeSignalsToQueue output
    writeAll outputs

/-- The second pass: an entry that cannot be read has no title and no category. -/
def fetchAll : List Nat → Run Fetched
  | [] => return []
  | entryId :: entryIds => do
    let answer ← perform (.get entryId)
    let fetched ← fetchAll entryIds
    match answer with
    | .entry title category => return fetched ++ [(entryId, title, category)]
    | _ => return fetched ++ [(entryId, "", "")]

/-- The passes of `run_confidence_consumer`. -/
def countHelpful (job : Nat) (featureCycle : String) (signals : List SignalRecord) : Run Unit := do
  let _ ← perform (.recordUsage ((mentions signals).map Prod.snd).dedup)
  match ← perform (.firstPass job featureCycle signals) with
  | .passed counted needing => do
    let fetched ← fetchAll needing
    if fetched = [] then return ()
    else do
      let _ ← perform (.thirdPass job featureCycle signals fetched counted)
      return ()
  | _ => return ()

/-- `run_confidence_consumer`. -/
def runConfidenceConsumer (job : Nat) (featureCycle : String) : Run Unit := do
  match ← perform (.drainSignals job .helpful featureCycle) with
  | .signals signals => if signals = [] then return () else countHelpful job featureCycle signals
  | _ => return ()

/-- Steps 2 to 4 of `run_retrospective_consumer`. -/
def countFlagged (job : Nat) (featureCycle : String) (signals : List SignalRecord) : Run Unit := do
  match ← perform (.absent featureCycle signals) with
  | .ids ids => do
    let fetched ← fetchAll ids
    let _ ← perform (.flaggedPass job featureCycle signals fetched)
    return ()
  | _ => return ()

/-- `run_retrospective_consumer`. -/
def runRetrospectiveConsumer (job : Nat) (featureCycle : String) : Run Unit := do
  match ← perform (.drainSignals job .flagged featureCycle) with
  | .signals signals => if signals = [] then return () else countFlagged job featureCycle signals
  | _ => return ()

/-- Both consumers. -/
def consumers (r : Nat) (featureCycle : String) : Run Unit := do
  runConfidenceConsumer (2 * r) featureCycle
  runRetrospectiveConsumer (2 * r + 1) featureCycle

/-- What may run. -/
inductive Call where
  /-- `process_session_close`: the sessions that it sweeps, and what it makes of its own. -/
  | close (stale : List SignalOutput) (output : Option SignalOutput) (featureCycle : String)
  /-- The sweep of `run_maintenance`. -/
  | sweep (stale : List SignalOutput)
  | review (featureCycle : String)
  | tick (ttl : Nat)

/-- A call, as far as it uses the queue and the accumulator. -/
def Call.run (r : Nat) : Call → Run Unit
  | .close stale output featureCycle => do
    writeAll stale
    match output with
    | some output => do
      writeSignalsToQueue output
      consumers r featureCycle
    | none => return ()
  | .sweep stale =>
    if stale = [] then return ()
    else do
      writeAll stale
      consumers r ""
  | .review featureCycle => do
    let _ ← perform (.drainFor featureCycle)
    return ()
  | .tick ttl => do
    let _ ← perform (.evictStale ttl)
    return ()

/-- The calls before their first operation, with what is in the queue from before. -/
def start (calls : List Call) (queue : List SignalRecord) : World Shared Op Answer Unit where
  shared := ⟨queue, Accumulator.new, queue, fun _ => none⟩
  procs r :=
    match calls[r]? with
    | some call => call.run r
    | none => pure ()

/-! ## What is owed and what is counted -/

/-- What a drain should add to a counter of an entry: a session that mentions it counts once, and each flag counts. -/
def Job.due (j : Job) (k : Measure) (entryId : Nat) : Nat :=
  match j.signalType, k with
  | .helpful, .successSessions => sessionsOf (mentions j.signals) entryId
  | .flagged, .reworkSessions => sessionsOf (mentions j.signals) entryId
  | .flagged, .reworkFlags => mentionsOf (mentions j.signals) entryId
  | _, _ => 0

/-- What was drained. -/
def signalsOf (j : Option Job) : List SignalRecord := (j.map Job.signals).getD []

/-- What was counted of a drain, in a bucket. -/
def creditOf (k : Measure) (featureCycle : String) (entryId : Nat) : Option Job → Nat
  | some j => if featureCycle = j.featureCycle then j.credit k entryId else 0
  | none => 0

/-- What should be. -/
def dueOf (k : Measure) (featureCycle : String) (entryId : Nat) : Option Job → Nat
  | some j => if featureCycle = j.featureCycle then j.due k entryId else 0
  | none => 0

/-- A sum over the drains where one of them changes. -/
theorem sum_update {n job : Nat} (h : job < n) (jobs : Nat → Option Job) (j : Option Job) (c : Option Job → Nat) :
    ∑ i ∈ Finset.range n, c (Function.update jobs job j i) + c (jobs job) = ∑ i ∈ Finset.range n, c (jobs i) + c j := by
  have hmem := Finset.mem_range.mpr h
  rw [← Finset.add_sum_erase _ _ hmem, ← Finset.add_sum_erase _ (fun i => c (jobs i)) hmem, Function.update_self]
  have hrest : ∑ i ∈ (Finset.range n).erase job, c (Function.update jobs job j i) =
      ∑ i ∈ (Finset.range n).erase job, c (jobs i) := by
    refine Finset.sum_congr rfl fun i hi => ?_
    rw [Function.update_of_ne (Finset.ne_of_mem_erase hi)]
  rw [hrest]
  omega

/-- What always holds: no signal is lost or doubled, the counters hold what was counted, and that is not too much. -/
structure Inv (n : Nat) (s : Shared) : Prop where
  once : ∀ x, s.inserted.count x = s.queue.count x + ∑ i ∈ Finset.range n, (signalsOf (s.jobs i)).count x
  counted : ∀ k f e, s.acc.total k f e = ∑ i ∈ Finset.range n, creditOf k f e (s.jobs i)
  le : ∀ i j, s.jobs i = some j → ∀ k e, j.credit k e ≤ j.due k e

/-- A drain has nothing to add at first, and the counters nothing of it. -/
theorem creditOf_new (k : Measure) (f : String) (e : Nat) (t : SignalType) (c : String) (l : List SignalRecord) :
    creditOf k f e (some ⟨t, c, l, fun _ _ => 0⟩) = 0 := ite_self 0

section Steps

variable {n job : Nat} {s : Shared} {j : Job}

/-- The queue grows by what is inserted. -/
theorem Inv.insert (h : Inv n s) (signal : SignalRecord) :
    Inv n { s with queue := s.queue ++ [signal], inserted := s.inserted ++ [signal] } where
  once x := by
    have hx := h.once x
    simp only [List.count_append]
    omega
  counted := h.counted
  le := h.le

/-- What is drained is in the queue no more. -/
theorem Inv.drain (h : Inv n s) (hjob : job < n) (hnone : s.jobs job = none) (t : SignalType) (f : String) :
    Inv n { s with
      queue := s.queue.filter fun signal => !decide (signal.signalType = t)
      jobs := Function.update s.jobs job
        (some ⟨t, f, s.queue.filter fun signal => decide (signal.signalType = t), fun _ _ => 0⟩) } where
  once x := by
    have hx := h.once x
    have hsum := sum_update hjob s.jobs
      (some ⟨t, f, s.queue.filter fun signal => decide (signal.signalType = t), fun _ _ => 0⟩)
      (fun j => (signalsOf j).count x)
    have hsplit : (s.queue.filter fun signal => decide (signal.signalType = t)).count x +
        (s.queue.filter fun signal => !decide (signal.signalType = t)).count x = s.queue.count x := by
      have hperm := List.filter_append_perm (fun signal : SignalRecord => decide (signal.signalType = t)) s.queue
      rw [← List.count_append]
      exact hperm.count_eq x
    rw [hnone] at hsum
    have hnew : (signalsOf (some ⟨t, f, s.queue.filter fun signal => decide (signal.signalType = t),
        fun _ _ => 0⟩)).count x = (s.queue.filter fun signal => decide (signal.signalType = t)).count x := rfl
    have hold : (signalsOf none).count x = 0 := rfl
    dsimp only at hsum ⊢
    omega
  counted k e' e := by
    have hsum := sum_update hjob s.jobs
      (some ⟨t, f, s.queue.filter fun signal => decide (signal.signalType = t), fun _ _ => 0⟩) (creditOf k e' e)
    rw [hnone, creditOf_new] at hsum
    exact (h.counted k e' e).trans hsum.symm
  le i j hj k e := by
    dsimp only at hj
    by_cases hi : i = job
    · subst hi
      rw [Function.update_self] at hj
      cases hj
      exact Nat.zero_le _
    · rw [Function.update_of_ne hi] at hj
      exact h.le i j hj k e

/-- What a pass adds to the counters is what its drain is credited. -/
theorem Inv.pass (h : Inv n s) (hjob : job < n) (hj : s.jobs job = some j) {credit : Measure → Nat → Nat}
    {acc : Accumulator} (hle : ∀ k e, j.credit k e ≤ credit k e) (hdue : ∀ k e, credit k e ≤ j.due k e)
    (hadds : ∀ k, Adds k j.featureCycle (fun e => credit k e - j.credit k e) s.acc acc) :
    Inv n { s with acc := acc, jobs := credited s.jobs job credit } := by
  have hjobs : credited s.jobs job credit = Function.update s.jobs job (some { j with credit := credit }) := by
    unfold credited
    rw [hj]
    rfl
  rw [hjobs]
  refine ⟨fun x => ?_, fun k f e => ?_, fun i j' hj' k e => ?_⟩
  · have hsum := sum_update hjob s.jobs (some { j with credit := credit }) (fun j => (signalsOf j).count x)
    rw [hj] at hsum
    have hsame : (signalsOf (some { j with credit := credit })).count x = (signalsOf (some j)).count x := rfl
    have hx := h.once x
    dsimp only at hsum ⊢
    omega
  · have hsum := sum_update hjob s.jobs (some { j with credit := credit }) (creditOf k f e)
    rw [hj] at hsum
    have htotal := hadds k f e
    have hold := h.counted k f e
    have hk := hle k e
    unfold creditOf at hsum hold ⊢
    dsimp only at hsum ⊢
    by_cases hf : f = j.featureCycle
    · simp only [if_pos hf] at hsum htotal
      omega
    · simp only [if_neg hf] at hsum htotal
      omega
  · dsimp only at hj'
    by_cases hi : i = job
    · subst hi
      rw [Function.update_self] at hj'
      cases hj'
      exact hdue k e
    · rw [Function.update_of_ne hi] at hj'
      exact h.le i j' hj' k e

/-- What leaves the accumulator is counted still. -/
theorem Inv.leave (h : Inv n s) {acc : Accumulator} {f : String}
    (hadds : ∀ k, Adds k f (fun _ => 0) s.acc acc) : Inv n { s with acc := acc } where
  once := h.once
  counted k g e := by
    have hg := hadds k g e
    rw [ite_self, Nat.add_zero] at hg
    exact hg.trans (h.counted k g e)
  le := h.le

end Steps

/-! ## What a consumer promises -/

/-- The others leave the drains of call `r` as they are. -/
def Rely (r : Nat) (s s' : Shared) : Prop := ∀ i, i / 2 = r → s'.jobs i = s.jobs i

/-- No other drain changes. -/
def Only (job : Nat) (s s' : Shared) : Prop := ∀ i, i ≠ job → s'.jobs i = s.jobs i

/-- No drain of another call changes. -/
def Own (r : Nat) (s s' : Shared) : Prop := ∀ i, i / 2 ≠ r → s'.jobs i = s.jobs i

/-- All of the drain was counted. -/
def Settled (j : Option Job) : Prop := ∀ j', j = some j' → ∀ k e, j'.credit k e = j'.due k e

theorem settled_none : Settled none := fun _ h => nomatch h

section Promises

variable {n r job : Nat} {A B : Type}

/-- From where its drain is `x`, the program keeps what always holds, changes no other drain, and ends with `Q`. -/
def Promise (n r job : Nat) (p : Run A) (x : Option Job) (Q : A → Option Job → Prop) : Prop :=
  ∀ s, s.jobs job = x → Wp exec (fun _ => True) (Inv n) (Rely r) (Only job) p (fun a t => Q a (t.jobs job)) s

theorem promise_pure (hr : job / 2 = r) {a : A} {x : Option Job} {Q : A → Option Job → Prop} (h : Q a x) :
    Promise n r job (pure a) x Q := by
  intro s hs
  refine wp_pure fun t ht _ => ?_
  rw [ht job hr, hs]
  exact h

theorem Promise.bind {p : Run A} {f : A → Run B} {x : Option Job} {P : A → Option Job → Prop}
    {Q : B → Option Job → Prop} (hp : Promise n r job p x P) (hf : ∀ a y, P a y → Promise n r job (f a) y Q) :
    Promise n r job (p >>= f) x Q :=
  fun s hs => wp_bind (fun _ _ _ => rfl) ((hp s hs).mono fun a t _ ha => hf a _ ha t rfl)

theorem promise_perform (hr : job / 2 = r) {a : Op} {x : Option Job} {Q : Answer → Option Job → Prop}
    (h : ∀ t, Inv n t → t.jobs job = x → ∀ o,
      Inv n (exec a o t).1 ∧ Only job t (exec a o t).1 ∧ Q (exec a o t).2 ((exec a o t).1.jobs job)) :
    Promise n r job (perform a) x Q := by
  intro s hs
  refine wp_perform fun t ht hi o _ => ?_
  obtain ⟨hinv, honly, hq⟩ := h t hi ((ht job hr).trans hs) o
  refine ⟨honly, hinv, fun u hu _ => ?_⟩
  rw [hu job hr]
  exact hq

/-- An operation that changes nothing. -/
theorem promise_reads (hr : job / 2 = r) {a : Op} {x : Option Job} (h : ∀ o t, (exec a o t).1 = t) :
    Promise n r job (perform a) x fun _ y => y = x := by
  refine promise_perform hr fun t hi hx o => ?_
  rw [h o t]
  exact ⟨hi, fun _ _ => rfl, hx⟩

theorem only_credited {t : Shared} {acc : Accumulator} {credit : Measure → Nat → Nat} :
    Only job t { t with acc := acc, jobs := credited t.jobs job credit } := fun _ hi => Function.update_of_ne hi ..

theorem credited_self {jobs : Nat → Option Job} {credit : Measure → Nat → Nat} :
    credited jobs job credit job = (jobs job).map fun j => { j with credit := credit } := Function.update_self ..

/-! ## The fetch -/

theorem get_append (fetched : Fetched) (entryId : Nat) (info : String × String) (e : Nat) :
    (Fetched.get (fetched ++ [(entryId, info)]) e).isSome = true ↔ (fetched.get e).isSome = true ∨ e = entryId := by
  unfold Fetched.get
  rw [List.find?_append]
  cases fetched.find? fun p => decide (p.1 = e) with
  | some p => simp
  | none =>
    by_cases h : entryId = e
    · simp [h]
    · simp [h, Ne.symm h]

/-- What is fetched is what was asked for. -/
structure Fetches (ids : List Nat) (fetched : Fetched) : Prop where
  get : ∀ e, (fetched.get e).isSome = true ↔ e ∈ ids
  nil : fetched = [] ↔ ids = []

theorem Fetches.cons {ids : List Nat} {fetched : Fetched} (h : Fetches ids fetched) (entryId : Nat)
    (info : String × String) : Fetches (entryId :: ids) (fetched ++ [(entryId, info)]) where
  get e := by
    rw [get_append, h.get e, List.mem_cons, or_comm]
  nil := by simp

theorem promise_fetchAll (hr : job / 2 = r) (ids : List Nat) (x : Option Job) :
    Promise n r job (fetchAll ids) x fun fetched y => y = x ∧ Fetches ids fetched := by
  induction ids with
  | nil => exact promise_pure hr ⟨rfl, fun e => by simp [Fetched.get], by simp⟩
  | cons entryId ids ih =>
    refine (promise_reads hr fun o t => rfl).bind fun answer y hy => ?_
    subst hy
    refine ih.bind fun fetched y ⟨hy, hfetches⟩ => ?_
    subst hy
    cases answer with
    | entry title category => exact promise_pure hr ⟨rfl, hfetches.cons entryId (title, category)⟩
    | failed | done | signals | passed | ids => exact promise_pure hr ⟨rfl, hfetches.cons entryId ("", "")⟩

/-! ## The drain -/

theorem promise_drain (hr : job / 2 = r) (hjob : job < n) (t : SignalType) (f : String) :
    Promise n r job (perform (.drainSignals job t f)) none fun answer y =>
      (∃ l, answer = .signals l ∧ y = some ⟨t, f, l, fun _ _ => 0⟩) ∨ answer = .failed ∧ y = none := by
  refine promise_perform hr fun s hi hnone o => ?_
  cases ho : o.ok with
  | false =>
    have hexec : exec (.drainSignals job t f) o s = (s, .failed) := by simp [exec, ho]
    rw [hexec]
    exact ⟨hi, fun _ _ => rfl, .inr ⟨rfl, hnone⟩⟩
  | true =>
    simp only [exec, ho, if_true]
    exact ⟨hi.drain hjob hnone t f, fun i hne => Function.update_of_ne hne .., .inl ⟨_, rfl, Function.update_self ..⟩⟩

/-- Nothing is owed for nothing. -/
theorem settled_nil (t : SignalType) (f : String) : Settled (some ⟨t, f, [], fun _ _ => 0⟩) := by
  rintro j hj k e
  cases hj
  cases t <;> cases k <;> rfl

/-! ## The helpful signals -/

section Helpful

variable {f : String} {signals : List SignalRecord} {counted : List Mention}

/-- The drain, with what was counted of it. -/
def helpfulJob (f : String) (signals : List SignalRecord) (counted : List Mention) : Job :=
  ⟨.helpful, f, signals, helpfulCredit counted⟩

theorem helpfulCredit_nil : helpfulCredit [] = fun _ _ => 0 := by
  funext k e
  exact ite_self 0

theorem helpfulCredit_le_due (hnodup : counted.Nodup) (h : ∀ m ∈ counted, m ∈ mentions signals) (k : Measure)
    (e : Nat) : helpfulCredit counted k e ≤ (helpfulJob f signals counted).due k e := by
  cases k with
  | successSessions => exact countedFor_le hnodup h
  | reworkSessions | reworkFlags => exact Nat.zero_le _

theorem settled_helpful (hnodup : counted.Nodup) (h : ∀ m, m ∈ counted ↔ m ∈ mentions signals) :
    Settled (some (helpfulJob f signals counted)) := by
  rintro j hj k e
  cases hj
  cases k with
  | successSessions => exact countedFor_eq hnodup h
  | reworkSessions | reworkFlags => rfl

/-- A pass over helpful signals keeps what always holds. -/
theorem Inv.helpful {t : Shared} {p : Pass} (h : Inv n t) (hjob : job < n)
    (hj : t.jobs job = some (helpfulJob f signals counted)) (hpass : PendingAnalysis.Helpful f ⟨t.acc, counted, []⟩ p)
    (hnodup : p.counted.Nodup) (hmem : ∀ m ∈ p.counted, m ∈ mentions signals) :
    Inv n { t with acc := p.acc, jobs := credited t.jobs job (helpfulCredit p.counted) } := by
  refine h.pass hjob hj (fun k e => ?_) (fun k e => helpfulCredit_le_due (f := f) hnodup hmem k e) fun k => ?_
  · unfold helpfulJob helpfulCredit
    dsimp only
    split_ifs
    · exact hpass.le e
    · exact Nat.zero_le _
  · cases k with
    | successSessions => exact hpass.successes.congr fun e => rfl
    | reworkSessions | reworkFlags => exact (hpass.others _ (by simp)).congr fun e => rfl

theorem promise_firstPass (hr : job / 2 = r) (hjob : job < n) :
    Promise n r job (perform (.firstPass job f signals)) (some (helpfulJob f signals [])) fun answer y =>
      ∃ counted needing, answer = .passed counted needing ∧ y = some (helpfulJob f signals counted) ∧ counted.Nodup ∧
        ∀ m, m ∈ counted ↔ m ∈ mentions signals ∧ m.2 ∉ needing := by
  refine promise_perform hr fun t hi hx o => ?_
  have hpass : PendingAnalysis.Helpful f ⟨t.acc, [], []⟩ ((mentions signals).foldl (firstStep f) ⟨t.acc, [], []⟩) :=
    foldl_helpful (fun p m => firstStep_helpful) _ _
  have hcounted : Counted (t.acc.contains f) (mentions signals) ⟨t.acc, [], []⟩
      ((mentions signals).foldl (firstStep f) ⟨t.acc, [], []⟩) :=
    firstPass_counted ⟨t.acc, [], []⟩ (mentions signals)
  have hneeding (e : Nat) : e ∈ ((mentions signals).foldl (firstStep f) ⟨t.acc, [], []⟩).needing ↔
      e ∈ [] ∨ t.acc.contains f e = false ∧ ∃ m ∈ mentions signals, m.2 = e :=
    firstPass_needing ⟨t.acc, [], []⟩ (mentions signals) e
  generalize hp : (mentions signals).foldl (firstStep f) ⟨t.acc, [], []⟩ = p at hpass hcounted hneeding
  have hnodup : p.counted.Nodup := hcounted.nodup List.nodup_nil
  have hmem (m : Mention) : m ∈ p.counted ↔ m ∈ mentions signals ∧ m.2 ∉ p.needing := by
    rw [hcounted.mem m, hneeding m.2]
    constructor
    · rintro (h | ⟨hm, hthere⟩)
      · cases h
      · refine ⟨hm, ?_⟩
        rintro (h | ⟨hnot, -⟩)
        · cases h
        · rw [hthere] at hnot
          cases hnot
    · rintro ⟨hm, hnot⟩
      refine .inr ⟨hm, Bool.eq_true_of_not_eq_false fun hfalse => hnot (.inr ⟨hfalse, m, hm, rfl⟩)⟩
  simp only [exec, hp]
  refine ⟨hi.helpful hjob hx hpass hnodup fun m hm => ((hmem m).mp hm).1, only_credited, p.counted, p.needing, rfl, ?_,
    hnodup, hmem⟩
  rw [credited_self, hx]
  rfl

theorem promise_thirdPass (hr : job / 2 = r) (hjob : job < n) {fetched : Fetched} {needing : List Nat}
    (hfetches : Fetches needing fetched) (hnodup : counted.Nodup)
    (hmem : ∀ m, m ∈ counted ↔ m ∈ mentions signals ∧ m.2 ∉ needing) :
    Promise n r job (perform (.thirdPass job f signals fetched counted)) (some (helpfulJob f signals counted))
      fun _ y => Settled y := by
  refine promise_perform hr fun t hi hx o => ?_
  have hpass : PendingAnalysis.Helpful f ⟨t.acc, counted, []⟩
      ((mentions signals).foldl (thirdStep f fetched.get o.order o.now) ⟨t.acc, counted, []⟩) :=
    foldl_helpful (fun p m => thirdStep_helpful) _ _
  have hcounted : Counted (fun e => (fetched.get e).isSome) (mentions signals) ⟨t.acc, counted, []⟩
      ((mentions signals).foldl (thirdStep f fetched.get o.order o.now) ⟨t.acc, counted, []⟩) := thirdPass_counted _ _
  generalize hp : (mentions signals).foldl (thirdStep f fetched.get o.order o.now) ⟨t.acc, counted, []⟩ = p
    at hpass hcounted
  have hnodup' : p.counted.Nodup := hcounted.nodup hnodup
  have hmem' (m : Mention) : m ∈ p.counted ↔ m ∈ mentions signals := by
    rw [hcounted.mem m, hmem m, hfetches.get m.2]
    tauto
  simp only [exec, hp]
  refine ⟨hi.helpful hjob hx hpass hnodup' fun m hm => (hmem' m).mp hm, only_credited, ?_⟩
  rw [credited_self, hx]
  exact settled_helpful hnodup' hmem'

theorem promise_countHelpful (hr : job / 2 = r) (hjob : job < n) :
    Promise n r job (countHelpful job f signals) (some (helpfulJob f signals [])) fun _ y => Settled y := by
  refine (promise_reads hr fun o t => rfl).bind fun _ y hy => ?_
  subst hy
  refine (promise_firstPass hr hjob).bind fun answer y hanswer => ?_
  obtain ⟨counted, needing, rfl, rfl, hnodup, hmem⟩ := hanswer
  refine (promise_fetchAll hr needing _).bind fun fetched y ⟨hy, hfetches⟩ => ?_
  subst hy
  split_ifs with hnil
  · refine promise_pure hr (settled_helpful hnodup fun m => ?_)
    rw [hmem m, hfetches.nil.mp hnil]
    simp
  · exact (promise_thirdPass hr hjob hfetches hnodup hmem).bind fun _ y hy => promise_pure hr hy

theorem promise_confidence (hr : job / 2 = r) (hjob : job < n) :
    Promise n r job (runConfidenceConsumer job f) none fun _ y => Settled y := by
  refine (promise_drain hr hjob .helpful f).bind fun answer y hanswer => ?_
  rcases hanswer with ⟨l, rfl, rfl⟩ | ⟨rfl, rfl⟩
  · dsimp only
    split_ifs with hnil
    · subst hnil
      exact promise_pure hr (settled_nil .helpful f)
    · have h : Promise n r job (countHelpful job f l) (some (helpfulJob f l [])) fun _ y => Settled y :=
        promise_countHelpful hr hjob
      unfold helpfulJob at h
      rw [helpfulCredit_nil] at h
      exact h
  · exact promise_pure hr settled_none

end Helpful

/-! ## The flagged signals -/

section Flagged

variable {f : String} {signals : List SignalRecord}

theorem promise_flaggedPass (hr : job / 2 = r) (hjob : job < n) {fetched : Fetched} :
    Promise n r job (perform (.flaggedPass job f signals fetched)) (some ⟨.flagged, f, signals, fun _ _ => 0⟩)
      fun _ y => Settled y := by
  refine promise_perform hr fun t hi hx o => ?_
  have hpass : PendingAnalysis.Flagged f (mentions signals) ⟨t.acc, [], []⟩
      ((mentions signals).foldl (flaggedStep f fetched.get o.order o.now) ⟨t.acc, [], []⟩) := foldl_flagged _ _
  have hcounted : Counted (fun _ => true) (mentions signals) ⟨t.acc, [], []⟩
      ((mentions signals).foldl (flaggedStep f fetched.get o.order o.now) ⟨t.acc, [], []⟩) := flaggedPass_counted _ _
  generalize hp : (mentions signals).foldl (flaggedStep f fetched.get o.order o.now) ⟨t.acc, [], []⟩ = p
    at hpass hcounted
  have hnodup : p.counted.Nodup := hcounted.nodup List.nodup_nil
  have hmem (m : Mention) : m ∈ p.counted ↔ m ∈ mentions signals := by
    rw [hcounted.mem m]
    simp
  have hdue (k : Measure) (e : Nat) : flaggedCredit p.counted (mentions signals) k e =
      (Job.mk .flagged f signals fun _ _ => 0).due k e := by
    cases k with
    | successSessions | reworkFlags => rfl
    | reworkSessions => exact countedFor_eq hnodup hmem
  simp only [exec, hp]
  refine ⟨hi.pass hjob hx (fun k e => Nat.zero_le _) (fun k e => (hdue k e).le) fun k => ?_, only_credited, ?_⟩
  · cases k with
    | successSessions => exact hpass.successes.congr fun e => rfl
    | reworkSessions => exact hpass.sessions.congr fun e => rfl
    | reworkFlags => exact hpass.flags.congr fun e => rfl
  · rw [credited_self, hx]
    rintro j hj k e
    cases hj
    exact hdue k e

theorem promise_retrospective (hr : job / 2 = r) (hjob : job < n) :
    Promise n r job (runRetrospectiveConsumer job f) none fun _ y => Settled y := by
  refine (promise_drain hr hjob .flagged f).bind fun answer y hanswer => ?_
  rcases hanswer with ⟨l, rfl, rfl⟩ | ⟨rfl, rfl⟩
  · dsimp only
    split_ifs with hnil
    · subst hnil
      exact promise_pure hr (settled_nil .flagged f)
    · refine (promise_perform hr fun t hi hx o => ⟨hi, fun _ _ => rfl, ?_⟩ :
        Promise n r job (perform (.absent f l)) _ fun answer y =>
          (∃ ids, answer = .ids ids) ∧ y = some ⟨.flagged, f, l, fun _ _ => 0⟩).bind fun answer y hanswer => ?_
      · exact ⟨⟨_, rfl⟩, hx⟩
      · obtain ⟨⟨ids, rfl⟩, rfl⟩ := hanswer
        refine (promise_fetchAll hr ids _).bind fun fetched y ⟨hy, _⟩ => ?_
        subst hy
        exact (promise_flaggedPass hr hjob).bind fun _ y hy => promise_pure hr hy
  · exact promise_pure hr settled_none

end Flagged

/-! ## What a call promises -/

/-- The drains of a call that has made none. -/
def Fresh (r : Nat) (s : Shared) : Prop := ∀ i, i / 2 = r → s.jobs i = none

/-- All that a call drained was counted. -/
def AllSettled (r : Nat) (s : Shared) : Prop := ∀ i, i / 2 = r → Settled (s.jobs i)

/-- What a call promises. -/
abbrev Promises (n r : Nat) (p : Run A) (Q : A → Shared → Prop) (s : Shared) : Prop :=
  Wp exec (fun _ => True) (Inv n) (Rely r) (Own r) p Q s

/-- The operations that have nothing to do with a drain. -/
def Idle : Op → Prop
  | .insertSignal _ _ _ _ | .drainFor _ | .evictStale _ => True
  | _ => False

theorem exec_idle {a : Op} (ha : Idle a) {s : Shared} (h : Inv n s) (o : Outcome) :
    (exec a o s).1.jobs = s.jobs ∧ Inv n (exec a o s).1 := by
  cases a with
  | insertSignal sessionId entryIds signalType signalSource =>
    unfold exec
    dsimp only
    split_ifs
    · exact ⟨rfl, h.insert _⟩
    · exact ⟨rfl, h⟩
  | drainFor f => exact ⟨rfl, h.leave fun k => (drainFor_spec : Adds k f _ _ _)⟩
  | evictStale ttl => exact ⟨rfl, h.leave fun k => (evictStale_spec o.now ttl : Adds k "" _ _ _)⟩
  | _ => cases ha

/-- A program of such operations makes no drain. -/
theorem promises_idle {p : Run A} (hp : p.All Idle) {s : Shared} (hs : Fresh r s) :
    Promises n r p (fun _ t => Fresh r t) s := by
  have h : Wp exec (fun _ => True) (Inv n) (Rely r) (fun a b => b.jobs = a.jobs) p (fun _ _ => True) s :=
    wp_of_all hp (fun a ha t hi o _ => exec_idle ha hi o) s
  have hframe := h.frame (K := Fresh r) (fun a b hab ha i hi => (hab i hi).trans (ha i hi))
    (fun a b hab ha i hi => (congrFun hab i).trans (ha i hi)) hs
  exact (hframe.guarantee fun a b hab i _ => congrFun hab i).mono fun _ _ _ h => h.2

theorem writeSignals_idle (output : SignalOutput) : (writeSignalsToQueue output).All Idle := by
  unfold writeSignalsToQueue
  cases output.finalOutcome with
  | success | rework =>
    dsimp only
    split_ifs
    · exact all_pure ()
    · exact all_bind (all_perform trivial) fun _ => all_pure ()
  | abandoned => exact all_pure ()

theorem writeAll_idle (outputs : List SignalOutput) : (writeAll outputs).All Idle := by
  induction outputs with
  | nil => exact all_pure ()
  | cons output outputs ih => exact all_bind (writeSignals_idle output) fun _ => ih

/-- One consumer after the other, each with a drain of its own. -/
theorem promises_consumers (hr : 2 * r + 1 < n) {f : String} {s : Shared} (hs : Fresh r s) :
    Promises n r (consumers r f) (fun _ t => AllSettled r t) s := by
  have hfirst : (2 * r) / 2 = r := by omega
  have hsecond : (2 * r + 1) / 2 = r := by omega
  refine wp_bind (fun _ _ _ => rfl) ?_
  have hlt : 2 * r < n := by omega
  have hconfidence := (promise_confidence (f := f) hfirst hlt s (hs _ hfirst)).frame
    (K := fun t => t.jobs (2 * r + 1) = none) (fun a b hab ha => (hab _ hsecond).trans ha)
    (fun a b hab ha => (hab (2 * r + 1) (by omega)).trans ha) (hs _ hsecond)
  refine (hconfidence.guarantee fun a b hab i hi => hab i ?_).mono fun _ t _ ⟨hsettled, hnone⟩ => ?_
  · rintro rfl
    exact hi hfirst
  have hretrospective := (promise_retrospective (f := f) hsecond hr t hnone).frame
    (K := fun t => Settled (t.jobs (2 * r))) (fun a b hab ha => by rwa [hab _ hfirst])
    (fun a b hab ha => by rwa [hab (2 * r) (by omega)]) hsettled
  refine (hretrospective.guarantee fun a b hab i hi => hab i ?_).mono fun _ u _ ⟨hlast, hkept⟩ i hi => ?_
  · rintro rfl
    exact hi hsecond
  obtain rfl | rfl : i = 2 * r ∨ i = 2 * r + 1 := by omega
  · exact hkept
  · exact hlast

theorem Fresh.settled {s : Shared} (h : Fresh r s) : AllSettled r s := fun i hi => by
  rw [h i hi]
  exact settled_none

/-- A call has counted all that it drained when it ends. -/
theorem promises_call (hr : 2 * r + 1 < n) (call : Call) {s : Shared} (hs : Fresh r s) :
    Promises n r (call.run r) (fun _ t => AllSettled r t) s := by
  have hidle {p : Run Unit} (hp : p.All Idle) {t : Shared} (ht : Fresh r t) :
      Promises n r p (fun _ t => AllSettled r t) t := (promises_idle hp ht).mono fun _ _ _ h => h.settled
  cases call with
  | close stale output f =>
    refine wp_bind (fun _ _ _ => rfl) ((promises_idle (writeAll_idle stale) hs).mono fun _ t _ ht => ?_)
    cases output with
    | none => exact hidle (all_pure ()) ht
    | some output =>
      refine wp_bind (fun _ _ _ => rfl) ((promises_idle (writeSignals_idle output) ht).mono fun _ u _ hu => ?_)
      exact promises_consumers hr hu
  | sweep stale =>
    change Promises n r (if stale = [] then _ else _) _ s
    split_ifs
    · exact hidle (all_pure ()) hs
    · refine wp_bind (fun _ _ _ => rfl) ((promises_idle (writeAll_idle stale) hs).mono fun _ t _ ht => ?_)
      exact promises_consumers hr ht
  | review f => exact hidle (all_bind (all_perform (show Idle (.drainFor f) from trivial)) fun _ => all_pure ()) hs
  | tick ttl => exact hidle (all_bind (all_perform (show Idle (.evictStale ttl) from trivial)) fun _ => all_pure ()) hs

end Promises

/-! ## All runs -/

variable {queue : List SignalRecord} {calls : List Call}

/-- The state after some turns. -/
def after (calls : List Call) (queue : List SignalRecord) (es : List (Nat × Outcome)) : World Shared Op Answer Unit :=
  es.foldl (turn exec) (start calls queue)

theorem inv_start : Inv (2 * calls.length) (start calls queue).shared where
  once x := by
    have hnone : ∑ i ∈ Finset.range (2 * calls.length), (signalsOf none).count x = 0 :=
      Finset.sum_eq_zero fun _ _ => rfl
    exact (congrArg (queue.count x + ·) hnone).symm
  counted k f e := (Finset.sum_eq_zero fun _ _ => rfl).symm
  le i j hj := nomatch hj

/-- What always holds does, and a call that has ended has counted all that it drained. -/
theorem run_promises (es : List (Nat × Outcome)) :
    Inv (2 * calls.length) (after calls queue es).shared ∧
      ∀ r x, (after calls queue es).procs r = .done x → AllSettled r (after calls queue es).shared := by
  have hrefl (r : Nat) (a : Shared) : Rely r a a := fun _ _ => rfl
  have htrans (r : Nat) (a b c : Shared) (hab : Rely r a b) (hbc : Rely r b c) : Rely r a c :=
    fun i hi => (hbc i hi).trans (hab i hi)
  have hown (r r' : Nat) (a b : Shared) (hne : r ≠ r') (hab : Own r a b) : Rely r' a b :=
    fun i hi => hab i (by omega)
  suffices hpromised : Promised exec (fun _ => True) (Inv (2 * calls.length)) Rely Own (fun r _ => AllSettled r)
      (start calls queue) from run_wp hrefl htrans hown hpromised fun _ _ => trivial
  refine ⟨inv_start, fun r => ?_⟩
  have hfresh : Fresh r (start calls queue).shared := fun _ _ => rfl
  unfold start
  dsimp only
  cases hr : calls[r]? with
  | none => exact (promises_idle (all_pure ()) hfresh).mono fun _ _ _ h => h.settled
  | some call =>
    have hlt := (List.getElem?_eq_some_iff.mp hr).1
    exact promises_call (by omega) call hfresh

/-- **A signal is in the queue, or was drained once**, as often as it was put there. -/
theorem signals_once (es : List (Nat × Outcome)) (x : SignalRecord) :
    (after calls queue es).shared.inserted.count x = (after calls queue es).shared.queue.count x +
      ∑ i ∈ Finset.range (2 * calls.length), (signalsOf ((after calls queue es).shared.jobs i)).count x :=
  (run_promises es).1.once x

/-- **No session is counted twice for an entry, and none is forgotten.** Over all that is in a bucket and all that has
left it, a counter is at most what the drains should have added, and just that when all calls have ended. -/
theorem signals_counted (es : List (Nat × Outcome)) (k : Measure) (f : String) (e : Nat) :
    (after calls queue es).shared.acc.total k f e ≤
        ∑ i ∈ Finset.range (2 * calls.length), dueOf k f e ((after calls queue es).shared.jobs i) ∧
      ((∀ r, ∃ x, (after calls queue es).procs r = .done x) →
        (after calls queue es).shared.acc.total k f e =
          ∑ i ∈ Finset.range (2 * calls.length), dueOf k f e ((after calls queue es).shared.jobs i)) := by
  obtain ⟨hinv, hdone⟩ : Inv (2 * calls.length) (after calls queue es).shared ∧ _ := run_promises es
  rw [hinv.counted k f e]
  constructor
  · refine Finset.sum_le_sum fun i _ => ?_
    cases hj : (after calls queue es).shared.jobs i with
    | none => exact le_rfl
    | some j =>
      unfold creditOf dueOf
      dsimp only
      split_ifs
      · exact hinv.le i j hj k e
      · exact le_rfl
  · intro hall
    refine Finset.sum_congr rfl fun i _ => ?_
    obtain ⟨x, hx⟩ := hall (i / 2)
    have hsettled := hdone (i / 2) x hx i rfl
    cases hj : (after calls queue es).shared.jobs i with
    | none => rfl
    | some j =>
      unfold creditOf dueOf
      dsimp only
      rw [hsettled j hj k e]

/-- A session that ends well counts once for an entry, which it lists twice. -/
theorem signals_counted_twice :
    (after [.close [] (some ⟨"s", [4, 4], [], .success⟩) "crt-011"] []
      (List.replicate 8 (0, ⟨true, 9, ⟨id, fun _ => .rfl⟩, "t", "c"⟩))).shared.acc.total
        .successSessions "crt-011" 4 = 1 :=
  have hdone (r : Nat) : ∃ x, (after [.close [] (some ⟨"s", [4, 4], [], .success⟩) "crt-011"] []
      (List.replicate 8 (0, ⟨true, 9, ⟨id, fun _ => .rfl⟩, "t", "c"⟩))).procs r = .done x :=
    match r with
    | 0 => ⟨(), rfl⟩
    | _ + 1 => ⟨(), rfl⟩
  ((signals_counted _ .successSessions "crt-011" 4).2 hdone).trans (by decide)

end Unimatrix.SignalConsumers
