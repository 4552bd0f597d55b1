import Mathlib.Data.Finset.Dedup
import Mathlib.Data.String.Basic
import Unimatrix.Hold.Store

/-!
# `SessionRegistry`: the per-session state of the server

Model of `infra/session.rs`: registration with re-adoption, transcript deltas, the three writers of a
session's feature (`set_feature_if_absent`, `set_feature_force`, `apply_stamp`), the topic votes, the
recorders, drain and stale sweep with the signal output they build.

* A call reads the clock through `now` (seconds) and iterates its maps in the given orders.
* `hold` is the wired hold with the memory the `Arc`s point into, and `holdWired` says whether the
  registry has the handle. `Arc::new` takes the next address (`nextArc`).
* Each method takes the registry lock once, so it is one function here; `registerSession` takes the
  hold lock before it (`acquireTranscript`) and the registry lock after (`publish`), and
  `applyTranscriptDelta` takes the buffer lock last.
* `count as f64 / total as f64 > 0.6` is `3 * total < 5 * count`: both counts are below `2 ^ 32`, so
  the quotient is off by less than its distance to 0.6 unless it is 0.6, which rounds to the literal.
* The confidence of an injection record, which nothing reads, is left out.
-/

namespace Unimatrix

open Machine HashMap

/-- `STALE_SESSION_THRESHOLD_SECS`. -/
def staleSessionThresholdSecs : Nat := 4 * 3600

/-- `REWORK_EDIT_CYCLE_THRESHOLD`. -/
def reworkEditCycleThreshold : Nat := 3

/-! ## The state of a session -/

/-- `TopicTally`. -/
structure TopicTally where
  count : Nat
  lastSeen : Nat
  deriving DecidableEq, Repr

/-- `ReworkEvent`. -/
structure ReworkEvent where
  toolName : String
  filePath : Option String
  hadFailure : Bool
  timestamp : Nat
  deriving DecidableEq, Repr

/-- `AgentActionType`. -/
inductive AgentActionType where
  | explicitUnhelpful
  | explicitHelpful
  | correction
  | deprecation
  deriving DecidableEq, Repr

/-- `SessionAction`. -/
structure SessionAction where
  entryId : Nat
  action : AgentActionType
  timestamp : Nat
  deriving DecidableEq, Repr

/-- `SessionOutcome`. -/
inductive SessionOutcome where
  | success
  | rework
  | abandoned
  deriving DecidableEq, Repr

/-- `SignalOutput`. -/
structure SignalOutput where
  sessionId : String
  helpfulEntryIds : List Nat
  flaggedEntryIds : List Nat
  finalOutcome : SessionOutcome
  deriving DecidableEq, Repr

/-- `SetFeatureResult`. -/
inductive SetFeatureResult where
  | set
  | alreadyMatches
  | overridden (previous : String)
  deriving DecidableEq, Repr

/-- `InferredOrigin`. -/
inductive InferredOrigin where
  | registered
  | voted
  deriving DecidableEq, Repr

/-- `FeatureSource`. -/
inductive FeatureSource where
  | declared
  | inferred (origin : InferredOrigin)
  deriving DecidableEq, Repr

/-- `InjectionRecord`. -/
structure InjectionRecord where
  entryId : Nat
  timestamp : Nat
  deriving DecidableEq, Repr

/-- `SessionState`. -/
structure SessionState where
  sessionId : String
  role : Option String
  feature : Option String
  featureSource : FeatureSource
  injectionHistory : List InjectionRecord
  coaccessSeen : Finset (List Nat)
  compactionCount : Nat
  signaledEntries : Finset Nat
  reworkEvents : List ReworkEvent
  agentActions : List SessionAction
  lastActivityAt : Nat
  topicSignals : HashMap String TopicTally
  currentPhase : Option String
  categoryCounts : HashMap String Nat
  currentGoal : Option String
  confirmedEntries : Finset Nat
  transcript : ArcId

/-- `SweepResult`. -/
structure SweepResult where
  sessionId : String
  output : SignalOutput
  resolvedFeature : Option String
  deriving DecidableEq, Repr

/-! ## Votes and signals -/

/-- The winner of a tie among `candidates`: the most recent, then the least name. -/
def breakTie (signals : HashMap String TopicTally) (candidates : List String) : Option String :=
  let seen := fun k => (signals.lookup k).elim 0 TopicTally.lastSeen
  let maxLastSeen := (candidates.map seen).foldl max 0
  match candidates.filter fun k => seen k = maxLastSeen with
  | [k] => some k
  | recent => recent.min?

/-- `majority_vote_internal`. -/
def majorityVoteInternal (signals : HashMap String TopicTally)
    (order : IterOrder String TopicTally) : Option String :=
  if signals.entries = [] then none
  else
    let maxCount := ((signals.iter order).map fun e => e.2.count).foldl max 0
    match ((signals.iter order).filter fun e => e.2.count = maxCount).map Prod.fst with
    | [k] => some k
    | candidates => breakTie signals candidates

/-- The events `has_crossed_rework_threshold` counts as an edit. -/
def isEdit (toolName : String) : Bool :=
  toolName == "Edit" || toolName == "Write" || toolName == "MultiEdit"

/-- The loop of `has_crossed_rework_threshold` for one path: whether the count of edit-fail-edit
cycles reaches the threshold. -/
def editCycles (path : String) (lastWasEdit failureSinceLastEdit : Bool) (cycleCount : Nat) :
    List ReworkEvent → Bool
  | [] => false
  | event :: events =>
    if isEdit event.toolName ∧ event.filePath = some path then
      if lastWasEdit ∧ failureSinceLastEdit then
        if reworkEditCycleThreshold ≤ cycleCount + 1 then true
        else editCycles path true false (cycleCount + 1) events
      else editCycles path true false cycleCount events
    else if event.toolName = "Bash" ∧ event.hadFailure then
      editCycles path lastWasEdit true cycleCount events
    else editCycles path lastWasEdit failureSinceLastEdit cycleCount events

/-- `has_crossed_rework_threshold`. -/
def hasCrossedReworkThreshold (state : SessionState) : Bool :=
  let filePaths := (state.reworkEvents.filter fun e => isEdit e.toolName).filterMap
    ReworkEvent.filePath
  filePaths.any fun path => editCycles path false false 0 state.reworkEvents

/-- The outcome `build_signal_output_from_state` decides on. -/
def finalOutcome (state : SessionState) (hookOutcome : String) : SessionOutcome :=
  if hasCrossedReworkThreshold state then .rework
  else if hookOutcome = "success" then .success
  else .abandoned

/-- The injected entries that were not signaled yet and not marked unhelpful, ascending. -/
def eligibleEntries (state : SessionState) : List Nat :=
  let explicitUnhelpful := ((state.agentActions.filter fun a =>
    a.action = .explicitUnhelpful).map SessionAction.entryId).toFinset
  let allInjected := (state.injectionHistory.map InjectionRecord.entryId).dedup
  ((allInjected.filter fun id => id ∉ state.signaledEntries).filter fun id =>
    id ∉ explicitUnhelpful).mergeSort

/-- `build_signal_output_from_state`. -/
def buildSignalOutputFromState (state : SessionState) (hookOutcome : String) : SignalOutput :=
  match finalOutcome state hookOutcome with
  | .abandoned => ⟨state.sessionId, [], [], .abandoned⟩
  | .success => ⟨state.sessionId, eligibleEntries state, [], .success⟩
  | .rework => ⟨state.sessionId, [], eligibleEntries state, .rework⟩

/-! ## The registry -/

/-- `SessionRegistry`. -/
structure SessionRegistry where
  sessions : HashMap String SessionState
  transcriptCap : Nat
  signatureScanner : SignatureScanner
  /-- `transcript_hold` is `Some`. -/
  holdWired : Bool
  hold : TranscriptHold
  nextArc : ArcId

namespace SessionRegistry

/-- `if let Some(state) = sessions.get_mut(session_id) { .. }`. -/
def modify (r : SessionRegistry) (sessionId : String) (f : SessionState → SessionState) :
    SessionRegistry :=
  match r.sessions.lookup sessionId with
  | none => r
  | some state => { r with sessions := r.sessions.insert sessionId (f state) }

/-- `Arc::new(Mutex::new(TranscriptBuffer::new(cap, scanner)))`. -/
def freshTranscript (r : SessionRegistry) : SessionRegistry × ArcId :=
  ({ r with
      hold := { r.hold with
        buffers := Function.update r.hold.buffers r.nextArc
          (LiveBuffer.new r.transcriptCap r.signatureScanner) }
      nextArc := r.nextArc + 1 }, r.nextArc)

/-- The cycle under which a registration or a drain talks to the hold. -/
def holdCycle (r : SessionRegistry) (feature : Option String) : Option String :=
  match feature with
  | some featureCycle => if r.holdWired && !featureCycle.isEmpty then some featureCycle else none
  | none => none

/-- The first half of `register_session`: the re-adopted buffer, or a fresh one. Only the hold lock is
taken. -/
def acquireTranscript (r : SessionRegistry) (sessionId : String) (feature : Option String) :
    SessionRegistry × ArcId × List Purge :=
  match r.holdCycle feature with
  | none => (r.freshTranscript.1, r.freshTranscript.2, [])
  | some featureCycle =>
    let adopted := r.hold.readopt sessionId featureCycle
    let r' := { r with hold := adopted.1 }
    match adopted.2.1 with
    | some arc => (r', arc, adopted.2.2)
    | none => (r'.freshTranscript.1, r'.freshTranscript.2, adopted.2.2)

/-- The state a registration inserts. -/
def newState (now : Nat) (sessionId : String) (role feature : Option String)
    (transcript : ArcId) : SessionState where
  sessionId := sessionId
  role := role
  feature := feature
  featureSource := .inferred .registered
  injectionHistory := []
  coaccessSeen := ∅
  compactionCount := 0
  signaledEntries := ∅
  reworkEvents := []
  agentActions := []
  lastActivityAt := now
  topicSignals := ∅
  currentPhase := none
  categoryCounts := ∅
  currentGoal := none
  confirmedEntries := ∅
  transcript := transcript

/-- The second half of `register_session`: the insert under the registry lock. -/
def publish (r : SessionRegistry) (now : Nat) (sessionId : String) (role feature : Option String)
    (transcript : ArcId) : SessionRegistry :=
  { r with
    sessions := r.sessions.insert sessionId (newState now sessionId role feature transcript) }

/-- `register_session`. -/
def registerSession (r : SessionRegistry) (now : Nat) (sessionId : String)
    (role feature : Option String) : SessionRegistry × List Purge :=
  let acquired := r.acquireTranscript sessionId feature
  (acquired.1.publish now sessionId role feature acquired.2.1, acquired.2.2)

/-- `state.last_activity_at = state.last_activity_at.max(now)`. -/
def bumpActivity (r : SessionRegistry) (now : Nat) (sessionId : String) : SessionRegistry :=
  r.modify sessionId fun state => { state with lastActivityAt := max state.lastActivityAt now }

/-- The hold's half of the lookup of `apply_transcript_delta`, for a session not registered. -/
def heldArc (r : SessionRegistry) (holdNow : Nat) (sessionId : String) :
    SessionRegistry × Option ArcId :=
  if r.holdWired then
    let found := r.hold.heldArcForSession holdNow sessionId
    ({ r with hold := found.1 }, found.2)
  else (r, none)

/-- `apply_transcript_delta`. -/
def applyTranscriptDelta (r : SessionRegistry) (now holdNow : Nat) (sessionId : String)
    (offset : Nat) (bytes : List UInt8) : SessionRegistry :=
  match r.sessions.lookup (sessionKey "default" "" sessionId) with
  | some state =>
    let r' := r.bumpActivity now (sessionKey "default" "" sessionId)
    { r' with hold := r'.hold.deliver state.transcript offset bytes }
  | none =>
    match r.heldArc holdNow sessionId with
    | (r', some arc) => { r' with hold := r'.hold.deliver arc offset bytes }
    | (r', none) => r'

/-- `record_injection`; `entries` are the ids. -/
def recordInjection (r : SessionRegistry) (now : Nat) (sessionId : String)
    (entries : List Nat) : SessionRegistry :=
  r.modify sessionId fun state => { state with
    injectionHistory := state.injectionHistory ++ entries.map fun id => ⟨id, now⟩
    lastActivityAt := max state.lastActivityAt now }

/-- `check_and_insert_coaccess`: the registry, and whether the set is new. -/
def checkAndInsertCoaccess (r : SessionRegistry) (sessionId : String) (entryIds : List Nat) :
    SessionRegistry × Bool :=
  match r.sessions.lookup sessionId with
  | none => (r, false)
  | some state =>
    (r.modify sessionId fun state => { state with
      coaccessSeen := insert entryIds.mergeSort state.coaccessSeen },
      entryIds.mergeSort ∉ state.coaccessSeen)

/-- `increment_compaction`, wrapping at 32 bits. -/
def incrementCompaction (r : SessionRegistry) (sessionId : String) : SessionRegistry :=
  r.modify sessionId fun state => { state with
    compactionCount := (state.compactionCount + 1) % (u32Max + 1) }

/-- `record_category_store`. -/
def recordCategoryStore (r : SessionRegistry) (sessionId category : String) : SessionRegistry :=
  r.modify sessionId fun state => { state with
    categoryCounts := state.categoryCounts.insert category
      (satAdd32 ((state.categoryCounts.lookup category).getD 0) 1) }

/-- `record_confirmed_entry`. -/
def recordConfirmedEntry (r : SessionRegistry) (sessionId : String) (entryId : Nat) :
    SessionRegistry :=
  r.modify sessionId fun state => { state with
    confirmedEntries := insert entryId state.confirmedEntries }

/-- `clear_session`. -/
def clearSession (r : SessionRegistry) (sessionId : String) : SessionRegistry :=
  { r with sessions := r.sessions.erase sessionId }

/-- `set_current_phase`. -/
def setCurrentPhase (r : SessionRegistry) (sessionId : String) (phase : Option String) :
    SessionRegistry :=
  r.modify sessionId fun state => { state with currentPhase := phase }

/-- `set_current_goal`. -/
def setCurrentGoal (r : SessionRegistry) (sessionId : String) (goal : Option String) :
    SessionRegistry :=
  r.modify sessionId fun state => { state with currentGoal := goal }

/-- `record_rework_event`. -/
def recordReworkEvent (r : SessionRegistry) (sessionId : String) (event : ReworkEvent) :
    SessionRegistry :=
  r.modify sessionId fun state => { state with
    reworkEvents := state.reworkEvents ++ [event]
    lastActivityAt := max state.lastActivityAt event.timestamp }

/-- `record_agent_action`. -/
def recordAgentAction (r : SessionRegistry) (sessionId : String) (action : SessionAction) :
    SessionRegistry :=
  r.modify sessionId fun state => { state with
    agentActions := state.agentActions ++ [action] }

/-! ### The feature and the votes -/

/-- `set_feature_if_absent`: the registry, and whether the feature was set. -/
def setFeatureIfAbsent (r : SessionRegistry) (sessionId feature : String) :
    SessionRegistry × Bool :=
  match r.sessions.lookup sessionId with
  | none => (r, false)
  | some state =>
    if state.feature.isNone then
      (r.modify sessionId fun state => { state with
        feature := some feature
        featureSource := .inferred .voted }, true)
    else (r, false)

/-- `set_feature_force`. -/
def setFeatureForce (r : SessionRegistry) (sessionId feature : String) :
    SessionRegistry × SetFeatureResult :=
  match r.sessions.lookup sessionId with
  | none => (r, .set)
  | some state =>
    match state.feature with
    | none =>
      (r.modify sessionId fun state => { state with
        feature := some feature
        featureSource := .declared }, .set)
    | some existing =>
      if existing = feature then
        (r.modify sessionId fun state => { state with featureSource := .declared },
          .alreadyMatches)
      else
        (r.modify sessionId fun state => { state with
          feature := some feature
          featureSource := .declared }, .overridden existing)

/-- `apply_stamp`. -/
def applyStamp (r : SessionRegistry) (sessionId topic : String) : SessionRegistry :=
  match r.sessions.lookup sessionId with
  | none => r
  | some state =>
    if state.feature = some topic ∧ state.featureSource = .declared then r
    else r.modify sessionId fun state => { state with
      feature := some topic
      featureSource := .declared }

/-- `record_topic_signal`. -/
def recordTopicSignal (r : SessionRegistry) (sessionId signal : String) (timestamp : Nat) :
    SessionRegistry :=
  r.modify sessionId fun state =>
    let tally := (state.topicSignals.lookup signal).getD ⟨0, 0⟩
    { state with
      topicSignals := state.topicSignals.insert signal
        { count := satAdd32 tally.count 1, lastSeen := max tally.lastSeen timestamp }
      lastActivityAt := max state.lastActivityAt timestamp }

/-- The leader among the topic signals: `max_by_key` takes the last entry with the largest count. -/
def leadingSignal (signals : HashMap String TopicTally) (order : IterOrder String TopicTally) :
    Option (String × TopicTally) :=
  (signals.iter order).reverse.argmax fun e => e.2.count

/-- `check_eager_attribution`. -/
def checkEagerAttribution (r : SessionRegistry) (order : IterOrder String TopicTally)
    (sessionId : String) : Option String := do
  let state ← r.sessions.lookup sessionId
  if state.feature.isSome then none
  else
    let totalCount := ((state.topicSignals.iter order).map fun e => e.2.count).foldl satAdd32 0
    let leader ← leadingSignal state.topicSignals order
    if 3 ≤ leader.2.count ∧ 3 * totalCount < 5 * leader.2.count then some leader.1 else none

/-! ### Drain and sweep -/

/-- `purge_record_for`: clear the session's buffer; the record of what was in it. -/
def purgeRecordFor (r : SessionRegistry) (state : SessionState) :
    SessionRegistry × Option TranscriptPurgeRecord :=
  let buffer := r.hold.buffers state.transcript
  ({ r with hold := { r.hold with
      buffers := Function.update r.hold.buffers state.transcript buffer.clear } },
    TranscriptHold.purgeRecord state.sessionId buffer.len)

/-- `drain_and_signal_session`: the output and the purge record of the removed session, with what the
hold purges to make room. -/
def drainAndSignalSession (r : SessionRegistry) (holdNow : Nat)
    (order : IterOrder String HeldBuffer) (sessionId hookOutcome : String) :
    SessionRegistry × Option (SignalOutput × Option TranscriptPurgeRecord) × List Purge :=
  match r.sessions.lookup sessionId with
  | none => (r, none, [])
  | some state =>
    let removed := { r with sessions := r.sessions.erase sessionId }
    let output := buildSignalOutputFromState state hookOutcome
    match r.holdCycle state.feature with
    | some featureCycle =>
      let held := removed.hold.holdOnDrain holdNow order sessionId state.transcript featureCycle
      ({ removed with hold := held.1 }, some (output, none), held.2)
    | none =>
      let purged := removed.purgeRecordFor state
      (purged.1, some (output, purged.2), [])

/-- The feature `sweep_stale_sessions` resolves for an evicted session. -/
def resolvedFeature (state : SessionState) (order : IterOrder String TopicTally) :
    Option String :=
  if state.featureSource = .declared ∧ state.feature.isSome then state.feature
  else (majorityVoteInternal state.topicSignals order).or state.feature

/-- What the sweep reports for an evicted session: nothing when no entry was injected. -/
def sweepResult (sessionId : String) (state : SessionState) (order : IterOrder String TopicTally) :
    Option SweepResult :=
  if state.injectionHistory.isEmpty then none
  else some
    { sessionId := sessionId
      output := buildSignalOutputFromState state "success"
      resolvedFeature := resolvedFeature state order }

/-- The loop of `sweep_stale_sessions` over the stale sessions. -/
def evictAll (r : SessionRegistry) (order : IterOrder String TopicTally) :
    List String → SessionRegistry × List SweepResult × List TranscriptPurgeRecord
  | [] => (r, [], [])
  | sessionId :: ids =>
    match r.sessions.lookup sessionId with
    | none => r.evictAll order ids
    | some state =>
      let purged := { r with sessions := r.sessions.erase sessionId }.purgeRecordFor state
      let rest := purged.1.evictAll order ids
      (rest.1, (sweepResult sessionId state order).toList ++ rest.2.1,
        purged.2.toList ++ rest.2.2)

/-- The sessions whose last activity is too old. -/
def staleIds (r : SessionRegistry) (now : Nat) (order : IterOrder String SessionState) :
    List String :=
  ((r.sessions.iter order).filter fun e =>
    staleSessionThresholdSecs ≤ now - e.2.lastActivityAt).map Prod.fst

/-- `sweep_stale_sessions`. -/
def sweepStaleSessions (r : SessionRegistry) (now : Nat) (order : IterOrder String SessionState)
    (votes : IterOrder String TopicTally) :
    SessionRegistry × List SweepResult × List TranscriptPurgeRecord :=
  r.evictAll votes (r.staleIds now order)

/-- `sweep_held_buffers`. -/
def sweepHeldBuffers (r : SessionRegistry) (holdNow : Nat) (order : IterOrder String HeldBuffer)
    (ttl : Nat) : SessionRegistry × List Purge :=
  if r.holdWired then
    let swept := r.hold.sweepExpired holdNow order ttl
    ({ r with hold := swept.1 }, swept.2)
  else (r, [])

/-- `SessionRegistry::with_transcript_cap`, `with_signature_scanner` and, when `holdWired`,
`with_transcript_hold` of an empty hold. -/
def new (transcriptCap : Nat) (scanner : SignatureScanner) (holdWired : Bool)
    (holdMaxSessions : Nat) : SessionRegistry where
  sessions := ∅
  transcriptCap := transcriptCap
  signatureScanner := scanner
  holdWired := holdWired
  hold := TranscriptHold.new holdMaxSessions fun _ => LiveBuffer.new transcriptCap scanner
  nextArc := 0

end SessionRegistry

/-! ## Runs -/

/-- A call on the registry. -/
inductive RegistryCall where
  | registerSession (sessionId : String) (role feature : Option String)
  | applyTranscriptDelta (sessionId : String) (offset : Nat) (bytes : List UInt8)
  | recordInjection (sessionId : String) (entries : List Nat)
  | checkAndInsertCoaccess (sessionId : String) (entryIds : List Nat)
  | incrementCompaction (sessionId : String)
  | recordCategoryStore (sessionId category : String)
  | recordConfirmedEntry (sessionId : String) (entryId : Nat)
  | clearSession (sessionId : String)
  | setCurrentPhase (sessionId : String) (phase : Option String)
  | setCurrentGoal (sessionId : String) (goal : Option String)
  | recordReworkEvent (sessionId : String) (event : ReworkEvent)
  | recordAgentAction (sessionId : String) (action : SessionAction)
  | setFeatureIfAbsent (sessionId feature : String)
  | setFeatureForce (sessionId feature : String)
  | applyStamp (sessionId topic : String)
  | recordTopicSignal (sessionId signal : String) (timestamp : Nat)
  | checkEagerAttribution (sessionId : String)
  | drainAndSignalSession (sessionId hookOutcome : String)
  | sweepStaleSessions
  | sweepHeldBuffers (ttl : Nat)
  deriving DecidableEq, Repr

/-- A call with the clocks' readings and the orders the maps are iterated in. -/
structure RegistryEvent where
  call : RegistryCall
  now : Nat
  holdNow : Nat
  sessionOrder : IterOrder String SessionState
  voteOrder : IterOrder String TopicTally
  holdOrder : IterOrder String HeldBuffer

/-- What a call returns. -/
inductive RegistryAnswer where
  | done
  | flag (b : Bool)
  | forced (result : SetFeatureResult)
  | attribution (topic : Option String)
  | drained (output : Option (SignalOutput × Option TranscriptPurgeRecord))
  | swept (results : List SweepResult) (purges : List TranscriptPurgeRecord)
  deriving DecidableEq, Repr

/-- The sweep results of an answer. -/
def RegistryAnswer.results : RegistryAnswer → List SweepResult
  | .swept results _ => results
  | _ => []

namespace SessionRegistry

/-- One call: the registry, the answer and the purges the hold emits. -/
def step (r : SessionRegistry) (e : RegistryEvent) :
    SessionRegistry × RegistryAnswer × List Purge :=
  match e.call with
  | .registerSession sid role feature =>
    let registered := r.registerSession e.now sid role feature
    (registered.1, .done, registered.2)
  | .applyTranscriptDelta sid offset bytes =>
    (r.applyTranscriptDelta e.now e.holdNow sid offset bytes, .done, [])
  | .recordInjection sid entries => (r.recordInjection e.now sid entries, .done, [])
  | .checkAndInsertCoaccess sid ids =>
    let inserted := r.checkAndInsertCoaccess sid ids
    (inserted.1, .flag inserted.2, [])
  | .incrementCompaction sid => (r.incrementCompaction sid, .done, [])
  | .recordCategoryStore sid category => (r.recordCategoryStore sid category, .done, [])
  | .recordConfirmedEntry sid id => (r.recordConfirmedEntry sid id, .done, [])
  | .clearSession sid => (r.clearSession sid, .done, [])
  | .setCurrentPhase sid phase => (r.setCurrentPhase sid phase, .done, [])
  | .setCurrentGoal sid goal => (r.setCurrentGoal sid goal, .done, [])
  | .recordReworkEvent sid event => (r.recordReworkEvent sid event, .done, [])
  | .recordAgentAction sid action => (r.recordAgentAction sid action, .done, [])
  | .setFeatureIfAbsent sid feature =>
    let filled := r.setFeatureIfAbsent sid feature
    (filled.1, .flag filled.2, [])
  | .setFeatureForce sid feature =>
    let forced := r.setFeatureForce sid feature
    (forced.1, .forced forced.2, [])
  | .applyStamp sid topic => (r.applyStamp sid topic, .done, [])
  | .recordTopicSignal sid signal timestamp => (r.recordTopicSignal sid signal timestamp, .done, [])
  | .checkEagerAttribution sid =>
    (r, .attribution (r.checkEagerAttribution e.voteOrder sid), [])
  | .drainAndSignalSession sid hookOutcome =>
    let drained := r.drainAndSignalSession e.holdNow e.holdOrder sid hookOutcome
    (drained.1, .drained drained.2.1, drained.2.2)
  | .sweepStaleSessions =>
    let swept := r.sweepStaleSessions e.now e.sessionOrder e.voteOrder
    (swept.1, .swept swept.2.1 swept.2.2, [])
  | .sweepHeldBuffers ttl =>
    let swept := r.sweepHeldBuffers e.holdNow e.holdOrder ttl
    (swept.1, .done, swept.2)

/-- The registry after a sequence of calls. -/
def run (r : SessionRegistry) : List RegistryEvent → SessionRegistry
  | [] => r
  | e :: es => (r.step e).1.run es

/-- The calls of a sequence with their answers. -/
def answers (r : SessionRegistry) : List RegistryEvent → List (RegistryCall × RegistryAnswer)
  | [] => []
  | e :: es => (e.call, (r.step e).2.1) :: (r.step e).1.answers es

theorem run_append (r : SessionRegistry) (es fs : List RegistryEvent) :
    r.run (es ++ fs) = (r.run es).run fs := by
  induction es generalizing r with
  | nil => rfl
  | cons e es ih => exact ih _

/-! ## What the calls do to the sessions -/

theorem lookup_modify (r : SessionRegistry) (sid : String) (f : SessionState → SessionState)
    (s : String) : (r.modify sid f).sessions.lookup s =
      (r.sessions.lookup s).map fun state => if s = sid then f state else state := by
  unfold modify
  cases h : r.sessions.lookup sid with
  | none =>
    by_cases hs : s = sid
    · rw [hs, h]
      rfl
    · simp only [if_neg hs, Option.map_id']
  | some state =>
    show (r.sessions.insert sid (f state)).lookup s = _
    rw [lookup_insert_eq]
    by_cases hs : s = sid
    · rw [if_pos hs, hs, h]
      simp
    · simp only [if_neg hs, Option.map_id']

@[simp] theorem acquireTranscript_sessions (r : SessionRegistry) (sid : String)
    (feature : Option String) : (r.acquireTranscript sid feature).1.sessions = r.sessions := by
  unfold acquireTranscript
  split
  · rfl
  · dsimp only
    split <;> rfl

@[simp] theorem heldArc_sessions (r : SessionRegistry) (holdNow : Nat) (sid : String) :
    (r.heldArc holdNow sid).1.sessions = r.sessions := by
  unfold heldArc
  split <;> rfl

@[simp] theorem sweepHeldBuffers_sessions (r : SessionRegistry) (holdNow : Nat)
    (order : IterOrder String HeldBuffer) (ttl : Nat) :
    (r.sweepHeldBuffers holdNow order ttl).1.sessions = r.sessions := by
  unfold sweepHeldBuffers
  split <;> rfl

/-- A delta touches its own session's activity only. -/
theorem applyTranscriptDelta_lookup (r : SessionRegistry) (now holdNow : Nat) (sid : String)
    (offset : Nat) (bytes : List UInt8) (s : String) :
    (r.applyTranscriptDelta now holdNow sid offset bytes).sessions.lookup s =
      (r.sessions.lookup s).map fun state =>
        if s = sid then { state with lastActivityAt := max state.lastActivityAt now }
        else state := by
  unfold applyTranscriptDelta sessionKey
  cases h : r.sessions.lookup sid with
  | some state => exact lookup_modify r sid _ s
  | none =>
    have hsame : r.sessions.lookup s = (r.sessions.lookup s).map fun state =>
        if s = sid then { state with lastActivityAt := max state.lastActivityAt now }
        else state := by
      by_cases hs : s = sid
      · rw [hs, h]
        rfl
      · simp only [if_neg hs, Option.map_id']
    rw [← hsame, ← heldArc_sessions r holdNow sid]
    dsimp only
    split <;> rename_i heq <;> rw [heq]

/-- A registration replaces its own session's state only. -/
theorem registerSession_lookup_ne (r : SessionRegistry) (now : Nat) {sid s : String}
    (role feature : Option String) (h : s ≠ sid) :
    (r.registerSession now sid role feature).1.sessions.lookup s = r.sessions.lookup s := by
  show ((r.acquireTranscript sid feature).1.sessions.insert sid _).lookup s = _
  rw [acquireTranscript_sessions, lookup_insert_eq, if_neg h]

/-- A drain removes its own session only. -/
theorem drainAndSignalSession_lookup_ne (r : SessionRegistry) (holdNow : Nat)
    (order : IterOrder String HeldBuffer) {sid s : String} (outcome : String) (h : s ≠ sid) :
    (r.drainAndSignalSession holdNow order sid outcome).1.sessions.lookup s =
      r.sessions.lookup s := by
  unfold drainAndSignalSession
  cases r.sessions.lookup sid with
  | none => rfl
  | some state =>
    have herase : (r.sessions.erase sid).lookup s = r.sessions.lookup s := by
      rw [lookup_erase_eq, if_neg h]
    dsimp only
    split <;> exact herase

/-! ### The stale sweep -/

/-- The evicted sessions are gone, the others stay. -/
theorem evictAll_lookup (order : IterOrder String TopicTally) (ids : List String)
    (r : SessionRegistry) (s : String) :
    (r.evictAll order ids).1.sessions.lookup s =
      if s ∈ ids then none else r.sessions.lookup s := by
  induction ids generalizing r with
  | nil => rfl
  | cons id ids ih =>
    unfold evictAll
    cases h : r.sessions.lookup id with
    | none =>
      dsimp only
      rw [ih]
      by_cases hs : s = id
      · rw [hs, h, ite_self, ite_self]
      · simp only [List.mem_cons, hs, false_or]
    | some state =>
      dsimp only
      rw [ih]
      show (if s ∈ ids then none else (r.sessions.erase id).lookup s) = _
      rw [lookup_erase_eq]
      by_cases hs : s = id
      · rw [if_pos hs, ite_self, if_pos (List.mem_cons.mpr (Or.inl hs))]
      · simp only [List.mem_cons, hs, false_or, if_false]

/-- Every result is about a session of the sweep, in the state it was evicted in. -/
theorem evictAll_results (order : IterOrder String TopicTally) (ids : List String)
    (r : SessionRegistry) {result : SweepResult} (h : result ∈ (r.evictAll order ids).2.1) :
    ∃ state, r.sessions.lookup result.sessionId = some state ∧
      sweepResult result.sessionId state order = some result := by
  induction ids generalizing r with
  | nil => exact absurd h List.not_mem_nil
  | cons id ids ih =>
    unfold evictAll at h
    cases hid : r.sessions.lookup id with
    | none =>
      rw [hid] at h
      exact ih r h
    | some state =>
      rw [hid] at h
      rcases List.mem_append.mp h with hhead | htail
      · have hres : sweepResult id state order = some result := Option.mem_toList.mp hhead
        have hsid : result.sessionId = id := by
          unfold sweepResult at hres
          split at hres
          · exact absurd hres (by simp)
          · obtain rfl := Option.some.inj hres
            rfl
        exact ⟨state, hsid ▸ hid, hsid ▸ hres⟩
      · obtain ⟨state', hlook, hres⟩ := ih _ htail
        have herase : (r.sessions.erase id).lookup result.sessionId = some state' := hlook
        rw [lookup_erase_eq] at herase
        split at herase
        · exact absurd herase (by simp)
        · exact ⟨state', herase, hres⟩

end SessionRegistry

end Unimatrix
