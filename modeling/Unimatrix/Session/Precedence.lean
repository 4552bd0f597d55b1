import Unimatrix.Session.Registry

/-!
# A declared feature stands

`set_feature_force` and `apply_stamp` **declare** a session's feature. What may end a declaration is
another declaration, a registration, or a removal of the session by `clear_session`, by
`drain_and_signal_session` (`Resets`) or by the stale sweep. Every other call leaves it
(`Stands.step`):

* the recorders and the votes never touch the feature (`step_lookup`);
* `set_feature_if_absent` and `check_eager_attribution` only act on a session without a feature;
* the sweep reports the declared feature, whatever the votes say.

`declared_feature_stands` is the law over runs.
-/

namespace Unimatrix.SessionRegistry

open HashMap

/-- The call declares `feature` for session `s`. -/
def Declares (s feature : String) : RegistryCall → Prop
  | .setFeatureForce sid f => sid = s ∧ f = feature
  | .applyStamp sid topic => sid = s ∧ topic = feature
  | _ => False

/-- The call declares a feature for session `s`, registers it or removes it. -/
def Resets (s : String) : RegistryCall → Prop
  | .setFeatureForce sid _ => sid = s
  | .applyStamp sid _ => sid = s
  | .registerSession sid _ _ => sid = s
  | .clearSession sid => sid = s
  | .drainAndSignalSession sid _ => sid = s
  | _ => False

/-- Session `s` is registered with the declared feature `f`. -/
def Stands (r : SessionRegistry) (s f : String) : Prop :=
  ∃ state, r.sessions.lookup s = some state ∧ state.feature = some f ∧
    state.featureSource = .declared

/-- A change of a session's state that keeps its feature and where it comes from. -/
def KeepsFeature (g : SessionState → SessionState) : Prop :=
  ∀ state, (g state).feature = state.feature ∧ (g state).featureSource = state.featureSource

theorem keepsFeature_id : KeepsFeature fun state => state := fun _ => ⟨rfl, rfl⟩

theorem keepsFeature_ite {g : SessionState → SessionState} (h : KeepsFeature g) (p : Prop)
    [Decidable p] : KeepsFeature fun state => if p then g state else state := by
  intro state
  split
  · exact h state
  · exact ⟨rfl, rfl⟩

/-- `r'` holds session `s` as `r` does, up to a change that keeps the feature. -/
def SameFeature (r r' : SessionRegistry) (s : String) : Prop :=
  ∃ g, KeepsFeature g ∧ r'.sessions.lookup s = (r.sessions.lookup s).map g

theorem SameFeature.of_eq {r r' : SessionRegistry} {s : String}
    (h : r'.sessions.lookup s = r.sessions.lookup s) : SameFeature r r' s :=
  ⟨fun state => state, keepsFeature_id, h.trans (by rw [Option.map_id'])⟩

theorem sameFeature_modify (r : SessionRegistry) (sid : String) {g : SessionState → SessionState}
    (h : KeepsFeature g) (s : String) : SameFeature r (r.modify sid g) s :=
  ⟨_, keepsFeature_ite h (s = sid), r.lookup_modify sid g s⟩

theorem sameFeature_modify_ne (r : SessionRegistry) {sid s : String}
    (g : SessionState → SessionState) (h : s ≠ sid) : SameFeature r (r.modify sid g) s := by
  refine SameFeature.of_eq ?_
  rw [lookup_modify]
  simp only [if_neg h, Option.map_id']

/-! ## The calls that do not touch the feature -/

theorem setFeatureIfAbsent_ne (r : SessionRegistry) {sid s : String} (f : String) (h : s ≠ sid) :
    SameFeature r (r.setFeatureIfAbsent sid f).1 s := by
  unfold setFeatureIfAbsent
  split
  · exact SameFeature.of_eq rfl
  · split
    · exact sameFeature_modify_ne r _ h
    · exact SameFeature.of_eq rfl

theorem setFeatureForce_ne (r : SessionRegistry) {sid s : String} (f : String) (h : s ≠ sid) :
    SameFeature r (r.setFeatureForce sid f).1 s := by
  unfold setFeatureForce
  split
  · exact SameFeature.of_eq rfl
  · split
    · exact sameFeature_modify_ne r _ h
    · split <;> exact sameFeature_modify_ne r _ h

theorem applyStamp_ne (r : SessionRegistry) {sid s : String} (topic : String) (h : s ≠ sid) :
    SameFeature r (r.applyStamp sid topic) s := by
  unfold applyStamp
  split
  · exact SameFeature.of_eq rfl
  · split
    · exact SameFeature.of_eq rfl
    · exact sameFeature_modify_ne r _ h

theorem checkAndInsertCoaccess_same (r : SessionRegistry) (sid : String) (ids : List Nat)
    (s : String) : SameFeature r (r.checkAndInsertCoaccess sid ids).1 s := by
  unfold checkAndInsertCoaccess
  split
  · exact SameFeature.of_eq rfl
  · exact sameFeature_modify r sid (by exact fun _ => ⟨rfl, rfl⟩) s

/-- **A call that does not reset session `s`, fill its feature or sweep keeps its feature.** -/
theorem step_sameFeature {r : SessionRegistry} {e : RegistryEvent} {s : String}
    (hreset : ¬ Resets s e.call) (hfill : ∀ f, e.call ≠ .setFeatureIfAbsent s f)
    (hsweep : e.call ≠ .sweepStaleSessions) : SameFeature r (r.step e).1 s := by
  obtain ⟨call, now, holdNow, so, vo, ho⟩ := e
  cases call with
  | registerSession sid role feature =>
    exact .of_eq (r.registerSession_lookup_ne now role feature fun h => hreset h.symm)
  | applyTranscriptDelta sid offset bytes =>
    exact ⟨_, keepsFeature_ite (g := fun state =>
      { state with lastActivityAt := max state.lastActivityAt now }) (fun _ => ⟨rfl, rfl⟩) (s = sid),
      r.applyTranscriptDelta_lookup now holdNow sid offset bytes s⟩
  | recordInjection sid entries => exact sameFeature_modify r sid (by exact fun _ => ⟨rfl, rfl⟩) s
  | checkAndInsertCoaccess sid ids => exact r.checkAndInsertCoaccess_same sid ids s
  | incrementCompaction sid => exact sameFeature_modify r sid (by exact fun _ => ⟨rfl, rfl⟩) s
  | recordCategoryStore sid category => exact sameFeature_modify r sid (by exact fun _ => ⟨rfl, rfl⟩) s
  | recordConfirmedEntry sid id => exact sameFeature_modify r sid (by exact fun _ => ⟨rfl, rfl⟩) s
  | clearSession sid =>
    refine .of_eq ?_
    show (r.sessions.erase sid).lookup s = _
    rw [lookup_erase_eq, if_neg fun h => hreset h.symm]
  | setCurrentPhase sid phase => exact sameFeature_modify r sid (by exact fun _ => ⟨rfl, rfl⟩) s
  | setCurrentGoal sid goal => exact sameFeature_modify r sid (by exact fun _ => ⟨rfl, rfl⟩) s
  | recordReworkEvent sid event => exact sameFeature_modify r sid (by exact fun _ => ⟨rfl, rfl⟩) s
  | recordAgentAction sid action => exact sameFeature_modify r sid (by exact fun _ => ⟨rfl, rfl⟩) s
  | setFeatureIfAbsent sid f =>
    exact r.setFeatureIfAbsent_ne f fun h => hfill f (by rw [h])
  | setFeatureForce sid f => exact r.setFeatureForce_ne f fun h => hreset h.symm
  | applyStamp sid topic => exact r.applyStamp_ne topic fun h => hreset h.symm
  | recordTopicSignal sid signal timestamp =>
    exact sameFeature_modify r sid (by exact fun _ => ⟨rfl, rfl⟩) s
  | checkEagerAttribution sid => exact .of_eq rfl
  | drainAndSignalSession sid outcome =>
    exact .of_eq (r.drainAndSignalSession_lookup_ne holdNow ho outcome fun h => hreset h.symm)
  | sweepStaleSessions => exact absurd rfl hsweep
  | sweepHeldBuffers ttl =>
    refine .of_eq ?_
    show (r.sweepHeldBuffers holdNow ho ttl).1.sessions.lookup s = _
    rw [sweepHeldBuffers_sessions]

/-! ## The answers -/

/-- An answer that lets the declared feature `f` of `s` stand: a heuristic is refused and a sweep
reports `f`. -/
structure Respects (s f : String) (call : RegistryCall) (answer : RegistryAnswer) : Prop where
  fill : ∀ g, call = .setFeatureIfAbsent s g → answer = .flag false
  eager : call = .checkEagerAttribution s → answer = .attribution none
  swept : ∀ result ∈ answer.results, result.sessionId = s → result.resolvedFeature = some f

/-- Session `s` is not registered. -/
def Absent (r : SessionRegistry) (s : String) : Prop := r.sessions.lookup s = none

/-- Only the stale sweep answers with results. -/
theorem results_eq_nil {r : SessionRegistry} {e : RegistryEvent}
    (h : e.call ≠ .sweepStaleSessions) : (r.step e).2.1.results = [] := by
  obtain ⟨call, now, holdNow, so, vo, ho⟩ := e
  cases call <;> first | rfl | exact absurd rfl h

theorem sweep_respects {r : SessionRegistry} {s f : String} (h : Stands r s f ∨ Absent r s)
    (now : Nat) (so : IterOrder String SessionState) (vo : IterOrder String TopicTally)
    {result : SweepResult} (hr : result ∈ (r.sweepStaleSessions now so vo).2.1)
    (hs : result.sessionId = s) : result.resolvedFeature = some f := by
  obtain ⟨state, hlook, hres⟩ := evictAll_results vo _ r hr
  rw [hs] at hlook
  rcases h with ⟨state', hlook', hf, hd⟩ | habs
  · obtain rfl := Option.some.inj (hlook.symm.trans hlook')
    unfold sweepResult at hres
    split at hres
    · exact absurd hres (by simp)
    · have hresolved := congrArg SweepResult.resolvedFeature (Option.some.inj hres)
      rw [← hresolved]
      show resolvedFeature state vo = some f
      unfold resolvedFeature
      rw [if_pos ⟨hd, by rw [hf]; rfl⟩, hf]
  · exact absurd (hlook.symm.trans habs) (by simp)

theorem step_respects {r : SessionRegistry} {s f : String} (h : Stands r s f ∨ Absent r s)
    (e : RegistryEvent) : Respects s f e.call (r.step e).2.1 := by
  obtain ⟨call, now, holdNow, so, vo, ho⟩ := e
  refine ⟨?_, ?_, ?_⟩
  · rintro g rfl
    show RegistryAnswer.flag (r.setFeatureIfAbsent s g).2 = _
    unfold setFeatureIfAbsent
    rcases h with ⟨state, hlook, hf, -⟩ | habs
    · rw [hlook]
      simp [hf]
    · rw [habs]
  · rintro rfl
    show RegistryAnswer.attribution (r.checkEagerAttribution vo s) = _
    unfold checkEagerAttribution
    rcases h with ⟨state, hlook, hf, -⟩ | habs
    · rw [hlook]
      simp [hf]
    · rw [habs]
      rfl
  · intro result hr hs
    by_cases hsweep : call = .sweepStaleSessions
    · subst hsweep
      exact sweep_respects h now so vo hr hs
    · rw [results_eq_nil (e := ⟨call, now, holdNow, so, vo, ho⟩) hsweep] at hr
      exact absurd hr List.not_mem_nil

/-! ## Steps and runs -/

theorem Stands.of_sameFeature {r r' : SessionRegistry} {s f : String} (h : Stands r s f)
    (hsame : SameFeature r r' s) : Stands r' s f := by
  obtain ⟨state, hlook, hf, hd⟩ := h
  obtain ⟨g, hg, hlook'⟩ := hsame
  refine ⟨g state, ?_, (hg state).1.trans hf, (hg state).2.trans hd⟩
  rw [hlook', hlook]
  rfl

/-- **A declaration stands** over a call that does not reset the session, unless the sweep removes
the session. -/
theorem Stands.step {r : SessionRegistry} {s f : String} (h : Stands r s f) {e : RegistryEvent}
    (hreset : ¬ Resets s e.call) :
    Stands (r.step e).1 s f ∨ (e.call = .sweepStaleSessions ∧ Absent (r.step e).1 s) := by
  by_cases hsweep : e.call = .sweepStaleSessions
  · obtain ⟨call, now, holdNow, so, vo, ho⟩ := e
    obtain rfl : call = .sweepStaleSessions := hsweep
    have hlook := evictAll_lookup vo (r.staleIds now so) r s
    by_cases hstale : s ∈ r.staleIds now so
    · rw [if_pos hstale] at hlook
      exact Or.inr ⟨rfl, hlook⟩
    · rw [if_neg hstale] at hlook
      exact Or.inl (h.of_sameFeature (.of_eq hlook))
  · by_cases hfill : ∃ f, e.call = .setFeatureIfAbsent s f
    · obtain ⟨g, hg⟩ := hfill
      obtain ⟨call, now, holdNow, so, vo, ho⟩ := e
      obtain rfl : call = .setFeatureIfAbsent s g := hg
      obtain ⟨state, hlook, hf, hd⟩ := h
      left
      show Stands (r.setFeatureIfAbsent s g).1 s f
      unfold setFeatureIfAbsent
      rw [hlook]
      simp only [hf, Option.isNone_some, Bool.false_eq_true, if_false]
      exact ⟨state, hlook, hf, hd⟩
    · exact Or.inl (h.of_sameFeature
        (step_sameFeature hreset (fun f hf => hfill ⟨f, hf⟩) hsweep))

theorem Absent.step {r : SessionRegistry} {s : String} (h : Absent r s) {e : RegistryEvent}
    (hreset : ¬ Resets s e.call) : Absent (r.step e).1 s := by
  by_cases hsweep : e.call = .sweepStaleSessions
  · obtain ⟨call, now, holdNow, so, vo, ho⟩ := e
    obtain rfl : call = .sweepStaleSessions := hsweep
    refine (evictAll_lookup vo (r.staleIds now so) r s).trans ?_
    rw [h, ite_self]
  · by_cases hfill : ∃ f, e.call = .setFeatureIfAbsent s f
    · obtain ⟨g, hg⟩ := hfill
      obtain ⟨call, now, holdNow, so, vo, ho⟩ := e
      obtain rfl : call = .setFeatureIfAbsent s g := hg
      show Absent (r.setFeatureIfAbsent s g).1 s
      unfold setFeatureIfAbsent
      rw [h]
      exact h
    · obtain ⟨g, -, hlook⟩ :=
        step_sameFeature (r := r) hreset (fun f hf => hfill ⟨f, hf⟩) hsweep
      unfold Absent
      rw [hlook, h]
      rfl

/-- The declaring call on a registered session. -/
theorem Declares.stands {r : SessionRegistry} {s f : String} {e : RegistryEvent}
    (h : Declares s f e.call) (hreg : ¬ Absent r s) : Stands (r.step e).1 s f := by
  obtain ⟨call, now, holdNow, so, vo, ho⟩ := e
  obtain ⟨state, hstate⟩ := Option.ne_none_iff_exists'.mp hreg
  have hmod : ∀ g : SessionState → SessionState, (g state).feature = some f →
      (g state).featureSource = .declared → Stands (r.modify s g) s f := fun g hf hd => by
    refine ⟨g state, ?_, hf, hd⟩
    rw [lookup_modify, hstate]
    exact congrArg some (if_pos rfl)
  cases call with
  | setFeatureForce sid g =>
    obtain ⟨rfl, rfl⟩ := h
    show Stands (r.setFeatureForce sid g).1 sid g
    unfold setFeatureForce
    rw [hstate]
    dsimp only
    split
    · refine hmod _ ?_ ?_ <;> rfl
    · rename_i existing hf
      split
      · rename_i heq
        refine hmod _ ?_ ?_
        · exact hf.trans (congrArg some heq)
        · rfl
      · refine hmod _ ?_ ?_ <;> rfl
  | applyStamp sid topic =>
    obtain ⟨rfl, rfl⟩ := h
    show Stands (r.applyStamp sid topic) sid topic
    unfold applyStamp
    rw [hstate]
    dsimp only
    split
    · rename_i hmatch
      exact ⟨state, hstate, hmatch.1, hmatch.2⟩
    · refine hmod _ ?_ ?_ <;> rfl
  | _ => exact absurd h id

/-- Over calls that do not reset the session, the declaration stands or the sweep removed the
session. -/
theorem Stands.run {r : SessionRegistry} {s f : String} (h : Stands r s f)
    {es : List RegistryEvent} (hes : ∀ e ∈ es, ¬ Resets s e.call) :
    Stands (r.run es) s f ∨
      (Absent (r.run es) s ∧ ∃ e ∈ es, e.call = .sweepStaleSessions) := by
  induction es using List.reverseRecOn with
  | nil => exact Or.inl h
  | append_singleton es e ih =>
    have he : ¬ Resets s e.call := hes e (List.mem_append_right _ List.mem_cons_self)
    rw [run_append]
    rcases ih fun e' he' => hes e' (List.mem_append_left _ he') with hst | ⟨habs, e', he', hc⟩
    · rcases hst.step he with hst' | ⟨hc, habs⟩
      · exact Or.inl hst'
      · exact Or.inr ⟨habs, e, List.mem_append_right _ List.mem_cons_self, hc⟩
    · exact Or.inr ⟨habs.step he, e', List.mem_append_left _ he', hc⟩

/-- Every answer over such calls respects the declaration. -/
theorem answers_respect {r : SessionRegistry} {s f : String} (h : Stands r s f ∨ Absent r s)
    {es : List RegistryEvent} (hes : ∀ e ∈ es, ¬ Resets s e.call) :
    ∀ a ∈ r.answers es, Respects s f a.1 a.2 := by
  induction es generalizing r with
  | nil => exact fun a ha => absurd ha List.not_mem_nil
  | cons e es ih =>
    obtain ⟨he, hrest⟩ := List.forall_mem_cons.mp hes
    have hnext : Stands (r.step e).1 s f ∨ Absent (r.step e).1 s := by
      rcases h with hst | habs
      · exact (hst.step he).imp id And.right
      · exact Or.inr (habs.step he)
    exact List.forall_mem_cons.mpr ⟨step_respects h e, ih hnext hrest⟩

/-- **A declared feature stands.** In a run from a new registry, once `set_feature_force` or
`apply_stamp` declares the feature of a registered session, then over any calls that do not declare,
register or remove that session the session keeps the declared feature as long as it is registered;
only the stale sweep can remove it, the heuristics are refused, and every sweep result for it
resolves to the declared feature. -/
theorem declared_feature_stands (transcriptCap : Nat) (scanner : SignatureScanner)
    (holdWired : Bool) (holdMaxSessions : Nat) (pre post : List RegistryEvent)
    (decl : RegistryEvent) (s f : String)
    (hreg : ¬ Absent ((new transcriptCap scanner holdWired holdMaxSessions).run pre) s)
    (hdecl : Declares s f decl.call) (hpost : ∀ e ∈ post, ¬ Resets s e.call) :
    let r := ((new transcriptCap scanner holdWired holdMaxSessions).run (pre ++ [decl]))
    (∀ p, p <+: post → Stands (r.run p) s f ∨
      (Absent (r.run p) s ∧ ∃ e ∈ p, e.call = .sweepStaleSessions)) ∧
    ∀ a ∈ r.answers post, Respects s f a.1 a.2 := by
  intro r
  have hr : Stands r s f := by
    show Stands (run _ (pre ++ [decl])) s f
    rw [run_append]
    exact hdecl.stands hreg
  exact ⟨fun p hp => hr.run fun e he => hpost e (hp.mem he), answers_respect (Or.inl hr) hpost⟩

/-- A call at time `now`, with the maps iterated as stored. -/
def callAt (now : Nat) (call : RegistryCall) : RegistryEvent :=
  ⟨call, now, now, .stored, .stored, .stored⟩

/-- The theorem above at a session that is voted against, refused a fill and swept. -/
theorem declared_feature_stands_voted :
    let r := ((new 16 .empty true 8).run
      ([callAt 0 (.registerSession "s" none none), callAt 0 (.recordInjection "s" [1])] ++
        [callAt 0 (.setFeatureForce "s" "f")]))
    (∀ p, p <+: [callAt 1 (.recordTopicSignal "s" "g" 1), callAt 2 (.setFeatureIfAbsent "s" "g"),
        callAt 20000 .sweepStaleSessions] →
      Stands (r.run p) "s" "f" ∨
        (Absent (r.run p) "s" ∧ ∃ e ∈ p, e.call = .sweepStaleSessions)) ∧
    ∀ a ∈ r.answers [callAt 1 (.recordTopicSignal "s" "g" 1),
        callAt 2 (.setFeatureIfAbsent "s" "g"), callAt 20000 .sweepStaleSessions],
      Respects "s" "f" a.1 a.2 := by
  refine declared_feature_stands 16 .empty true 8 _ _ (callAt 0 (.setFeatureForce "s" "f"))
    "s" "f" ?_ ⟨rfl, rfl⟩ ?_
  · intro h
    exact absurd (congrArg Option.isSome h) (by decide)
  · intro e he
    simp only [List.mem_cons, List.not_mem_nil, or_false] at he
    rcases he with rfl | rfl | rfl <;> exact id

end Unimatrix.SessionRegistry
