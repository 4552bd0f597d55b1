import Mathlib.Data.List.Count
import Unimatrix.Session.Precedence

/-!
# The signals of a session

`drain_and_signal_session` and `sweep_stale_sessions` both remove a session and build its
`SignalOutput`. A **sitting** is what the calls recorded for a session since its registration: the entries
injected, and those the agent marked unhelpful. It is read off the calls alone (`Sitting.of`).

* `step_view`: what one call does to the sitting a registered session holds.
* `buildSignalOutputFromState_sound`: the output of a state, against its sitting.
* `step_signals_le`: an output uses up a registration.

Headline: **`signals_sound`**, over every run each output is sound for the sitting it closes, and there
are at most as many outputs for a session as registrations.
-/

namespace Unimatrix

open HashMap

/-! ## Sittings -/

/-- What the calls recorded for a session since its registration. -/
structure Sitting where
  injected : List Nat
  unhelpful : List Nat
  deriving DecidableEq, Repr

namespace Sitting

/-- A sitting with nothing recorded. -/
def start : Sitting := ⟨[], []⟩

/-- The sitting of session `s` after a call. -/
def after (s : String) (t : Sitting) : RegistryCall → Sitting
  | .registerSession sid _ _ => if sid = s then start else t
  | .recordInjection sid entries =>
    if sid = s then { t with injected := t.injected ++ entries } else t
  | .recordAgentAction sid action =>
    if sid = s ∧ action.action = .explicitUnhelpful then
      { t with unhelpful := t.unhelpful ++ [action.entryId] }
    else t
  | _ => t

/-- The sitting of session `s` after `calls`. -/
def of (s : String) (calls : List RegistryCall) : Sitting := calls.foldl (after s) start

theorem of_concat (s : String) (calls : List RegistryCall) (call : RegistryCall) :
    of s (calls ++ [call]) = (of s calls).after s call := by
  unfold of
  rw [List.foldl_append]
  rfl

end Sitting

/-- The call registers session `s`. -/
def RegistryCall.registers (s : String) : RegistryCall → Bool
  | .registerSession sid _ _ => sid = s
  | _ => false

/-- The outputs an answer carries. -/
def RegistryAnswer.outputs : RegistryAnswer → List SignalOutput
  | .drained (some closed) => [closed.1]
  | .swept results _ => results.map SweepResult.output
  | _ => []

/-- What a state holds of its sitting. -/
def SessionState.sitting (state : SessionState) : Sitting where
  injected := state.injectionHistory.map InjectionRecord.entryId
  unhelpful := (state.agentActions.filter fun a => a.action = .explicitUnhelpful).map
    SessionAction.entryId

namespace SessionRegistry

/-! ## What a call does to a sitting -/

/-- The id and the sitting the registry holds for session `s`. -/
def view (r : SessionRegistry) (s : String) : Option (String × Sitting) :=
  (r.sessions.lookup s).map fun state => (state.sessionId, state.sitting)

/-- What a call may leave of session `s`: nothing, what was there with the call recorded, or a new
registration. -/
def Viewed (r r' : SessionRegistry) (s : String) (call : RegistryCall) : Prop :=
  r'.view s = none ∨ r'.view s = (r.view s).map (fun v => (v.1, v.2.after s call)) ∨
    (call.registers s = true ∧ r'.view s = some (s, .start))

theorem view_congr {r r' : SessionRegistry} {s : String}
    (h : r'.sessions.lookup s = r.sessions.lookup s) : r'.view s = r.view s := by
  unfold view
  rw [h]

/-- A call that records nothing for `s` and leaves it as it was. -/
theorem viewed_of_eq {r r' : SessionRegistry} {s : String} {call : RegistryCall}
    (h : r'.sessions.lookup s = r.sessions.lookup s) (hcall : ∀ t, Sitting.after s t call = t) :
    Viewed r r' s call := by
  refine .inr (.inl ?_)
  simp only [view_congr h, hcall, Option.map_id']

/-- A change of one session's state that records `call`. -/
theorem viewed_modify (r : SessionRegistry) {sid s : String} {call : RegistryCall}
    {g : SessionState → SessionState} (hid : ∀ state, (g state).sessionId = state.sessionId)
    (hsit : ∀ state, sid = s → (g state).sitting = state.sitting.after s call)
    (hother : sid ≠ s → ∀ t, Sitting.after s t call = t) : Viewed r (r.modify sid g) s call := by
  refine .inr (.inl ?_)
  unfold view
  rw [lookup_modify, Option.map_map, Option.map_map]
  congr 1
  funext state
  simp only [Function.comp_apply]
  by_cases hs : sid = s
  · rw [if_pos hs.symm, hid, hsit state hs]
  · rw [if_neg (Ne.symm hs), hother hs]

/-- A change of one session's state that leaves its sitting. -/
theorem viewed_quiet (r : SessionRegistry) {sid s : String} {call : RegistryCall}
    {g : SessionState → SessionState}
    (h : ∀ state, (g state).sessionId = state.sessionId ∧ (g state).sitting = state.sitting)
    (hcall : ∀ t, Sitting.after s t call = t) : Viewed r (r.modify sid g) s call :=
  viewed_modify r (fun state => (h state).1) (fun state _ => (h state).2.trans (hcall _).symm)
    fun _ => hcall

theorem viewed_registerSession (r : SessionRegistry) (now : Nat) (sid : String)
    (role feature : Option String) (s : String) :
    Viewed r (r.registerSession now sid role feature).1 s (.registerSession sid role feature) := by
  by_cases hs : s = sid
  · subst hs
    refine .inr (.inr ⟨decide_eq_true rfl, ?_⟩)
    show (((r.acquireTranscript s feature).1.sessions.insert s _).lookup s).map _ = _
    rw [lookup_insert_eq, if_pos rfl]
    rfl
  · exact viewed_of_eq (r.registerSession_lookup_ne now role feature hs) fun t =>
      if_neg (Ne.symm hs)

theorem viewed_recordAgentAction (r : SessionRegistry) (sid : String) (action : SessionAction)
    (s : String) : Viewed r (r.recordAgentAction sid action) s (.recordAgentAction sid action) := by
  refine viewed_modify r (fun _ => rfl) (fun state hs => ?_) fun hs t => if_neg fun h => hs h.1
  simp only [SessionState.sitting, Sitting.after, List.filter_append, List.map_append, hs, true_and]
  by_cases ha : action.action = .explicitUnhelpful
  · simp [ha]
  · simp [ha]

theorem drainAndSignalSession_lookup (r : SessionRegistry) (holdNow : Nat)
    (order : IterOrder String HeldBuffer) (sid outcome s : String) :
    (r.drainAndSignalSession holdNow order sid outcome).1.sessions.lookup s =
      if s = sid then none else r.sessions.lookup s := by
  by_cases hs : s = sid
  · subst hs
    rw [if_pos rfl]
    unfold drainAndSignalSession
    cases hl : r.sessions.lookup s with
    | none => exact hl
    | some state =>
      have herase : (r.sessions.erase s).lookup s = none := by
        rw [lookup_erase_eq, if_pos rfl]
      dsimp only
      split <;> exact herase
  · rw [if_neg hs, r.drainAndSignalSession_lookup_ne holdNow order outcome hs]

theorem viewed_removed {r r' : SessionRegistry} {s : String} {p : Prop} [Decidable p]
    {call : RegistryCall}
    (h : r'.sessions.lookup s = if p then none else r.sessions.lookup s)
    (hcall : ∀ t, Sitting.after s t call = t) : Viewed r r' s call := by
  split at h
  · left
    unfold view
    rw [h]
    rfl
  · exact viewed_of_eq h hcall

theorem viewed_applyTranscriptDelta (r : SessionRegistry) (now holdNow : Nat) (sid : String) (offset : Nat)
    (bytes : List UInt8) (s : String) :
    Viewed r (r.applyTranscriptDelta now holdNow sid offset bytes) s (.applyTranscriptDelta sid offset bytes) := by
  refine .inr (.inl ?_)
  unfold view
  rw [applyTranscriptDelta_lookup, Option.map_map, Option.map_map]
  congr 1
  funext state
  simp only [Function.comp_apply]
  split <;> rfl

theorem viewed_recordInjection (r : SessionRegistry) (now : Nat) (sid : String) (entries : List Nat) (s : String) :
    Viewed r (r.recordInjection now sid entries) s (.recordInjection sid entries) := by
  refine viewed_modify r (fun _ => rfl) (fun state hs => ?_) fun hs t => if_neg hs
  simp only [SessionState.sitting, Sitting.after, List.map_append, List.map_map, if_pos hs]
  congr 2
  exact List.map_id entries

theorem viewed_checkAndInsertCoaccess (r : SessionRegistry) (sid : String) (ids : List Nat) (s : String) :
    Viewed r (r.checkAndInsertCoaccess sid ids).1 s (.checkAndInsertCoaccess sid ids) := by
  unfold checkAndInsertCoaccess
  split
  · exact viewed_of_eq rfl fun _ => rfl
  · exact viewed_quiet r (fun _ => ⟨rfl, rfl⟩) fun _ => rfl

theorem viewed_setFeatureIfAbsent (r : SessionRegistry) (sid feature s : String) :
    Viewed r (r.setFeatureIfAbsent sid feature).1 s (.setFeatureIfAbsent sid feature) := by
  unfold setFeatureIfAbsent
  split
  · exact viewed_of_eq rfl fun _ => rfl
  · split
    · exact viewed_quiet r (fun _ => ⟨rfl, rfl⟩) fun _ => rfl
    · exact viewed_of_eq rfl fun _ => rfl

theorem viewed_setFeatureForce (r : SessionRegistry) (sid feature s : String) :
    Viewed r (r.setFeatureForce sid feature).1 s (.setFeatureForce sid feature) := by
  unfold setFeatureForce
  split
  · exact viewed_of_eq rfl fun _ => rfl
  · split
    · exact viewed_quiet r (fun _ => ⟨rfl, rfl⟩) fun _ => rfl
    · split <;> exact viewed_quiet r (fun _ => ⟨rfl, rfl⟩) fun _ => rfl

theorem viewed_applyStamp (r : SessionRegistry) (sid topic s : String) :
    Viewed r (r.applyStamp sid topic) s (.applyStamp sid topic) := by
  unfold applyStamp
  split
  · exact viewed_of_eq rfl fun _ => rfl
  · split
    · exact viewed_of_eq rfl fun _ => rfl
    · exact viewed_quiet r (fun _ => ⟨rfl, rfl⟩) fun _ => rfl

/-- **What a call leaves of a session's sitting.** -/
theorem step_view (r : SessionRegistry) (e : RegistryEvent) (s : String) :
    Viewed r (r.step e).1 s e.call := by
  obtain ⟨call, now, holdNow, so, vo, ho⟩ := e
  have quiet : ∀ (sid : String) (g : SessionState → SessionState), (∀ state,
      (g state).sessionId = state.sessionId ∧ (g state).sitting = state.sitting) →
      (∀ t, Sitting.after s t call = t) → Viewed r (r.modify sid g) s call :=
    fun _ _ h => r.viewed_quiet h
  cases call with
  | registerSession sid role feature => exact r.viewed_registerSession now sid role feature s
  | applyTranscriptDelta sid offset bytes => exact r.viewed_applyTranscriptDelta now holdNow sid offset bytes s
  | recordInjection sid entries => exact r.viewed_recordInjection now sid entries s
  | checkAndInsertCoaccess sid ids => exact r.viewed_checkAndInsertCoaccess sid ids s
  | incrementCompaction sid => exact quiet sid _ (fun _ => ⟨rfl, rfl⟩) fun _ => rfl
  | recordCategoryStore sid category => exact quiet sid _ (fun _ => ⟨rfl, rfl⟩) fun _ => rfl
  | recordConfirmedEntry sid id => exact quiet sid _ (fun _ => ⟨rfl, rfl⟩) fun _ => rfl
  | clearSession sid => exact viewed_removed (p := s = sid) (lookup_erase_eq _ _ _) fun _ => rfl
  | setCurrentPhase sid phase => exact quiet sid _ (fun _ => ⟨rfl, rfl⟩) fun _ => rfl
  | setCurrentGoal sid goal => exact quiet sid _ (fun _ => ⟨rfl, rfl⟩) fun _ => rfl
  | recordReworkEvent sid event => exact quiet sid _ (fun _ => ⟨rfl, rfl⟩) fun _ => rfl
  | recordAgentAction sid action => exact r.viewed_recordAgentAction sid action s
  | setFeatureIfAbsent sid feature => exact r.viewed_setFeatureIfAbsent sid feature s
  | setFeatureForce sid feature => exact r.viewed_setFeatureForce sid feature s
  | applyStamp sid topic => exact r.viewed_applyStamp sid topic s
  | recordTopicSignal sid signal timestamp => exact quiet sid _ (fun _ => ⟨rfl, rfl⟩) fun _ => rfl
  | checkEagerAttribution sid => exact viewed_of_eq rfl fun _ => rfl
  | drainAndSignalSession sid outcome =>
    exact viewed_removed (r.drainAndSignalSession_lookup holdNow ho sid outcome s) fun _ => rfl
  | sweepStaleSessions =>
    exact viewed_removed (evictAll_lookup vo (r.staleIds now so) r s) fun _ => rfl
  | sweepHeldBuffers ttl =>
    refine viewed_of_eq ?_ fun _ => rfl
    show (r.sweepHeldBuffers holdNow ho ttl).1.sessions.lookup s = _
    rw [sweepHeldBuffers_sessions]

/-! ## The registry holds the sittings -/

/-- Every registered session holds its own id and the sitting `calls` recorded for it. -/
def Recorded (r : SessionRegistry) (calls : List RegistryCall) : Prop :=
  ∀ s v, r.view s = some v → v = (s, Sitting.of s calls)

theorem new_recorded (transcriptCap : Nat) (scanner : SignatureScanner) (holdWired : Bool)
    (holdMaxSessions : Nat) : Recorded (new transcriptCap scanner holdWired holdMaxSessions) [] :=
  fun _ _ h => by cases h

theorem Recorded.step {r : SessionRegistry} {calls : List RegistryCall} (h : Recorded r calls)
    (e : RegistryEvent) : Recorded (r.step e).1 (calls ++ [e.call]) := by
  intro s v hv
  rw [Sitting.of_concat]
  rcases r.step_view e s with hnone | hkept | ⟨hreg, hnew⟩
  · rw [hnone] at hv
    cases hv
  · rw [hkept] at hv
    obtain ⟨w, hw, rfl⟩ := Option.map_eq_some_iff.mp hv
    rw [h s w hw]
  · rw [hnew] at hv
    cases hv
    obtain ⟨call, now, holdNow, so, vo, ho⟩ := e
    cases call with
    | registerSession sid role feature =>
      exact congrArg (Prod.mk s) (if_pos (of_decide_eq_true hreg)).symm
    | _ => cases hreg

theorem Recorded.run {r : SessionRegistry} {calls : List RegistryCall} (h : Recorded r calls)
    (es : List RegistryEvent) : Recorded (r.run es) (calls ++ es.map RegistryEvent.call) := by
  induction es generalizing r calls with
  | nil => rwa [List.map_nil, List.append_nil]
  | cons e es ih =>
    rw [List.map_cons, List.append_cons]
    exact ih (h.step e)

end SessionRegistry

/-! ## One output -/

/-- The output is sound for the sitting `t`. -/
structure SignalOutput.Sound (o : SignalOutput) (t : Sitting) : Prop where
  /-- No id is listed twice, in one list or across the two. -/
  nodup : (o.helpfulEntryIds ++ o.flaggedEntryIds).Nodup
  injected : ∀ id ∈ o.helpfulEntryIds ++ o.flaggedEntryIds, id ∈ t.injected
  helpful : ∀ id ∈ o.helpfulEntryIds, id ∉ t.unhelpful

theorem mem_eligibleEntries {state : SessionState} {id : Nat} (h : id ∈ eligibleEntries state) :
    id ∈ state.sitting.injected ∧ id ∉ state.sitting.unhelpful := by
  unfold eligibleEntries at h
  rw [List.mem_mergeSort, List.mem_filter, List.mem_filter, List.mem_dedup] at h
  refine ⟨h.1.1, fun hmem => ?_⟩
  exact of_decide_eq_true h.2 (List.mem_toFinset.mpr hmem)

theorem eligibleEntries_nodup (state : SessionState) : (eligibleEntries state).Nodup := by
  unfold eligibleEntries
  rw [(List.mergeSort_perm _ _).nodup_iff]
  exact ((List.nodup_dedup _).filter _).filter _

/-- **The output of a state is sound for its sitting.** -/
theorem buildSignalOutputFromState_sound (state : SessionState) (hookOutcome : String) :
    (buildSignalOutputFromState state hookOutcome).Sound state.sitting ∧
      (buildSignalOutputFromState state hookOutcome).sessionId = state.sessionId := by
  have hnd := eligibleEntries_nodup state
  unfold buildSignalOutputFromState
  cases finalOutcome state hookOutcome with
  | abandoned =>
    exact ⟨⟨List.nodup_nil, fun _ h => absurd h List.not_mem_nil,
      fun _ h => absurd h List.not_mem_nil⟩, rfl⟩
  | success =>
    refine ⟨⟨?_, fun id h => ?_, fun id h => (mem_eligibleEntries h).2⟩, rfl⟩
    · rwa [List.append_nil]
    · rw [List.append_nil] at h
      exact (mem_eligibleEntries h).1
  | rework =>
    exact ⟨⟨hnd, fun id h => (mem_eligibleEntries h).1, fun _ h => absurd h List.not_mem_nil⟩, rfl⟩

namespace SessionRegistry

theorem drainAndSignalSession_output (r : SessionRegistry) (holdNow : Nat)
    (order : IterOrder String HeldBuffer) (sid outcome : String) :
    (RegistryAnswer.drained (r.drainAndSignalSession holdNow order sid outcome).2.1).outputs =
      ((r.sessions.lookup sid).map fun state => buildSignalOutputFromState state outcome).toList := by
  unfold drainAndSignalSession
  cases r.sessions.lookup sid with
  | none => rfl
  | some state =>
    dsimp only
    split <;> rfl

theorem sweepResult_output {sid : String} {state : SessionState} {order : IterOrder String TopicTally}
    {result : SweepResult} (h : sweepResult sid state order = some result) :
    result.output = buildSignalOutputFromState state "success" := by
  unfold sweepResult at h
  split at h
  · cases h
  · cases h
    rfl

/-- Every output is built from the state of a session registered just before the call. -/
theorem output_of_state {r : SessionRegistry} {e : RegistryEvent} {o : SignalOutput}
    (h : o ∈ (r.step e).2.1.outputs) :
    ∃ s state outcome, r.sessions.lookup s = some state ∧
      o = buildSignalOutputFromState state outcome := by
  obtain ⟨call, now, holdNow, so, vo, ho⟩ := e
  cases call with
  | drainAndSignalSession sid outcome =>
    have hmem := (r.drainAndSignalSession_output holdNow ho sid outcome) ▸ h
    obtain ⟨state, hl, rfl⟩ := Option.map_eq_some_iff.mp (Option.mem_toList.mp hmem)
    exact ⟨sid, state, outcome, hl, rfl⟩
  | sweepStaleSessions =>
    obtain ⟨result, hr, rfl⟩ := List.mem_map.mp h
    obtain ⟨state, hl, hres⟩ := evictAll_results vo _ r hr
    exact ⟨result.sessionId, state, "success", hl, sweepResult_output hres⟩
  | _ => exact absurd h List.not_mem_nil

theorem output_sound {r : SessionRegistry} {calls : List RegistryCall} (h : Recorded r calls)
    {e : RegistryEvent} {o : SignalOutput} (ho : o ∈ (r.step e).2.1.outputs) :
    o.Sound (Sitting.of o.sessionId calls) := by
  obtain ⟨s, state, outcome, hl, rfl⟩ := output_of_state ho
  obtain ⟨hsound, hid⟩ := buildSignalOutputFromState_sound state outcome
  have hview : r.view s = some (state.sessionId, state.sitting) := by
    unfold view
    rw [hl]
    rfl
  obtain ⟨hs, ht⟩ := Prod.mk.inj (h s _ hview)
  rw [hid, hs, ← ht]
  exact hsound

/-! ## How many outputs -/

/-- 1 for a registered session. -/
def seats (r : SessionRegistry) (s : String) : Nat := if (r.view s).isSome then 1 else 0

/-- The outputs of an answer for session `s`. -/
def signalsFor (s : String) (a : RegistryAnswer) : Nat :=
  a.outputs.countP fun o => o.sessionId = s

/-- Every registered session is under its own id. -/
def Keyed (r : SessionRegistry) : Prop :=
  ∀ s state, r.sessions.lookup s = some state → state.sessionId = s

theorem Recorded.keyed {r : SessionRegistry} {calls : List RegistryCall} (h : Recorded r calls) :
    Keyed r := by
  intro s state hl
  refine (Prod.mk.inj (h s (state.sessionId, state.sitting) ?_)).1
  unfold view
  rw [hl]
  rfl

theorem seats_le {r r' : SessionRegistry} {s : String} {call : RegistryCall}
    (h : Viewed r r' s call) : r'.seats s ≤ r.seats s + if call.registers s then 1 else 0 := by
  unfold seats
  rcases h with hnone | hkept | ⟨hreg, hnew⟩
  · rw [hnone]
    exact Nat.zero_le _
  · rw [hkept, Option.isSome_map]
    exact Nat.le_add_right _ _
  · rw [hnew, hreg]
    exact Nat.le_add_left _ _

theorem seats_of_lookup {r : SessionRegistry} {s : String} :
    r.seats s = if (r.sessions.lookup s).isSome then 1 else 0 := by
  unfold seats view
  rw [Option.isSome_map]

/-- A sweep takes the seats it signals for. -/
theorem evictAll_signals_le (order : IterOrder String TopicTally) (ids : List String)
    {r : SessionRegistry} (hk : Keyed r) (s : String) :
    ((r.evictAll order ids).2.1.countP fun result => result.output.sessionId = s) +
      (r.evictAll order ids).1.seats s ≤ r.seats s := by
  induction ids generalizing r with
  | nil => exact Nat.le_of_eq (Nat.zero_add _)
  | cons id ids ih =>
    unfold evictAll
    cases hl : r.sessions.lookup id with
    | none => exact ih hk
    | some state =>
      dsimp only
      generalize hr' : ({ r with sessions := r.sessions.erase id }.purgeRecordFor state).1 = r'
      have hsess : r'.sessions = r.sessions.erase id := by
        rw [← hr']
        rfl
      have hk' : Keyed r' := fun s' state' h' => by
        rw [hsess, lookup_erase_eq] at h'
        split at h'
        · cases h'
        · exact hk s' state' h'
      have hrest := ih hk'
      have hone : ((sweepResult id state order).toList.countP fun result =>
          result.output.sessionId = s) ≤ if s = id then 1 else 0 := by
        cases hres : sweepResult id state order with
        | none => exact Nat.zero_le _
        | some result =>
          have hid : result.output.sessionId = id := by
            rw [sweepResult_output hres, (buildSignalOutputFromState_sound state "success").2,
              hk id state hl]
          simp only [Option.toList_some, List.countP_singleton, hid, decide_eq_true_eq,
            eq_comm (a := id)]
          exact Nat.le_refl _
      have hseat : r'.seats s + (if s = id then 1 else 0) ≤ r.seats s := by
        rw [seats_of_lookup, seats_of_lookup, hsess, lookup_erase_eq]
        by_cases hs : s = id
        · rw [if_pos hs, if_pos hs, hs, hl]
          exact Nat.le_refl _
        · rw [if_neg hs, if_neg hs]
          exact Nat.le_refl _
      rw [List.countP_append]
      omega

/-- A drain gives one output for the session it removes. -/
theorem drain_signals_le {r : SessionRegistry} (hk : Keyed r) (holdNow : Nat)
    (order : IterOrder String HeldBuffer) (sid outcome s : String) :
    signalsFor s (.drained (r.drainAndSignalSession holdNow order sid outcome).2.1) +
      (r.drainAndSignalSession holdNow order sid outcome).1.seats s ≤ r.seats s := by
  have hafter : (r.drainAndSignalSession holdNow order sid outcome).1.seats s =
      if s = sid then 0 else r.seats s := by
    rw [seats_of_lookup, seats_of_lookup, drainAndSignalSession_lookup]
    by_cases hs : s = sid
    · rw [if_pos hs, if_pos hs]
      rfl
    · rw [if_neg hs, if_neg hs]
  have hsig : signalsFor s (.drained (r.drainAndSignalSession holdNow order sid outcome).2.1) ≤
      if s = sid then r.seats s else 0 := by
    unfold signalsFor
    rw [r.drainAndSignalSession_output holdNow order sid outcome]
    cases hl : r.sessions.lookup sid with
    | none => exact Nat.zero_le _
    | some state =>
      have hid : (buildSignalOutputFromState state outcome).sessionId = sid := by
        rw [(buildSignalOutputFromState_sound state outcome).2, hk sid state hl]
      simp only [Option.map_some, Option.toList_some, List.countP_singleton, hid,
        decide_eq_true_eq, eq_comm (a := sid)]
      by_cases hs : s = sid
      · rw [if_pos hs, if_pos hs, seats_of_lookup, hs, hl]
        exact Nat.le_refl _
      · rw [if_neg hs, if_neg hs]
  rw [hafter]
  by_cases hs : s = sid
  · rw [if_pos hs] at hsig ⊢
    omega
  · rw [if_neg hs] at hsig ⊢
    omega

/-- **An output uses up a registration.** -/
theorem step_signals_le {r : SessionRegistry} (hk : Keyed r) (e : RegistryEvent) (s : String) :
    signalsFor s (r.step e).2.1 + (r.step e).1.seats s ≤
      r.seats s + if e.call.registers s then 1 else 0 := by
  have hseats := seats_le (r.step_view e s)
  obtain ⟨call, now, holdNow, so, vo, ho⟩ := e
  cases call with
  | drainAndSignalSession sid outcome => exact drain_signals_le hk holdNow ho sid outcome s
  | sweepStaleSessions =>
    have hsweep := evictAll_signals_le vo (r.staleIds now so) hk s
    show signalsFor s (.swept (r.evictAll vo (r.staleIds now so)).2.1 _) + _ ≤ r.seats s + 0
    unfold signalsFor RegistryAnswer.outputs
    rw [List.countP_map]
    exact hsweep
  | _ => exact Nat.le_trans (Nat.le_of_eq (Nat.zero_add _)) hseats

/-- The outputs a run gives for session `s`. -/
def signals (r : SessionRegistry) (es : List RegistryEvent) (s : String) : Nat :=
  ((r.answers es).map fun a => signalsFor s a.2).sum

theorem run_signals_le {r : SessionRegistry} {calls : List RegistryCall} (h : Recorded r calls)
    (es : List RegistryEvent) (s : String) :
    r.signals es s + (r.run es).seats s ≤
      r.seats s + (es.map RegistryEvent.call).countP (·.registers s) := by
  induction es generalizing r calls with
  | nil => exact Nat.le_of_eq (Nat.zero_add _)
  | cons e es ih =>
    have hstep := step_signals_le h.keyed e s
    have hrest := ih (h.step e)
    unfold signals at hrest ⊢
    simp only [answers, List.map_cons, List.sum_cons, List.countP_cons]
    show _ + ((r.step e).1.run es).seats s ≤ _
    omega

/-- **The signals of a session.** In every run from a new registry, an output built at a drain or at the
sweep is sound for what was recorded since the registration it closes. Between any two points of the run
a session gives at most one output for each of its registrations, and one for the registration that was
open at the first point. -/
theorem signals_sound (transcriptCap : Nat) (scanner : SignatureScanner) (holdWired : Bool)
    (holdMaxSessions : Nat) (pre : List RegistryEvent) :
    let r := (new transcriptCap scanner holdWired holdMaxSessions).run pre
    (∀ e, ∀ o ∈ (r.step e).2.1.outputs,
      o.Sound (Sitting.of o.sessionId (pre.map RegistryEvent.call))) ∧
    ∀ es s, r.signals es s ≤
      (if (r.sessions.lookup s).isSome then 1 else 0) +
        (es.map RegistryEvent.call).countP (·.registers s) := by
  intro r
  have hrec : Recorded r (pre.map RegistryEvent.call) :=
    (new_recorded transcriptCap scanner holdWired holdMaxSessions).run pre
  refine ⟨fun e o ho => output_sound hrec ho, fun es s => ?_⟩
  have hle := run_signals_le hrec es s
  rw [seats_of_lookup (r := r)] at hle
  omega

end SessionRegistry

end Unimatrix
