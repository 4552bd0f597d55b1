import Mathlib.Algebra.GroupWithZero.Nat
import Mathlib.Data.Char
import Mathlib.Data.Finset.Card
import Mathlib.Data.Finset.Dedup
import Mathlib.Data.List.Lex
import Mathlib.Data.Prod.Lex
import Unimatrix.Lib.StableSort

/-!
# The phases of a cycle

Model of `reckon_phase_aggregates` and of the phase sequence of `build_phase_narrative`, the two walks over the events
of a cycle.

* A `HashSet` is a `Finset`. A list is shorter than 2⁶³, so counts are plain; timestamps and durations are `i64`, with
  the arithmetic of a release build.
* Of `build_phase_narrative` the parts are modelled that read events; the others compare category counts.

Both walks enter a phase where an event announces one. A `cycle_start` that announces the phase announced last
(`Reannounces`) is no entry for `build_phase_narrative`, and rework for `reckon_phase_aggregates`.

**`agrees_iff`**: the counts are those of the phase sequence exactly if there is no such event; the duration is never
longer than the time between the first event and the last, even where a sum leaves the range (**`duration_le`**).
-/

namespace Unimatrix.Phases

/-! ## The code -/

/-- `CycleEventRecord`. -/
structure CycleEventRecord where
  seq : Int64
  eventType : List Char
  phase : Option (List Char)
  nextPhase : Option (List Char)
  timestamp : Int64
  deriving DecidableEq

/-- The key that events are ordered by. -/
def CycleEventRecord.key (e : CycleEventRecord) : Int ×ₗ Int := toLex (e.timestamp.toInt, e.seq.toInt)

/-- `PhaseAggregates`. -/
structure PhaseAggregates where
  phaseCount : Nat
  phaseTransitionCount : Nat
  phaseReworkCount : Nat
  phaseUnclosedCount : Nat
  phaseTotalDurationSecs : Int64
  deriving DecidableEq

/-- The state of the walk. -/
structure PhaseWalk where
  seenPhase : Finset (List Char)
  currentPhase : Option (List Char)
  currentStartSecs : Int64
  openUnclosed : Finset (List Char)
  transitions : Nat
  rework : Nat
  totalDurationSecs : Int64

namespace PhaseWalk

/-- Before the first event. -/
def start : PhaseWalk := ⟨∅, none, 0, ∅, 0, 0, 0⟩

/-- `(timestamp - current_start_secs).max(0)`. -/
def elapsed (w : PhaseWalk) (timestamp : Int64) : Int64 :=
  let d := timestamp - w.currentStartSecs
  if d < 0 then 0 else d

/-- `enter_phase` and what is done with its result: the phase is open and current. -/
def enterPhase (w : PhaseWalk) (phase : List Char) (timestamp : Int64) : PhaseWalk :=
  { w with
    openUnclosed := insert phase w.openUnclosed
    rework := if phase ∈ w.seenPhase then w.rework + 1 else w.rework
    seenPhase := insert phase w.seenPhase
    currentPhase := some phase
    currentStartSecs := timestamp }

/-- The phase that is ending is closed; if it is the current one, its window counts. -/
def closePhase (w : PhaseWalk) (ending : List Char) (timestamp : Int64) : PhaseWalk :=
  { w with
    totalDurationSecs :=
      if w.currentPhase = some ending then w.totalDurationSecs + w.elapsed timestamp else w.totalDurationSecs
    openUnclosed := w.openUnclosed.erase ending }

/-- `cycle_start`. -/
def cycleStart (w : PhaseWalk) (e : CycleEventRecord) : PhaseWalk :=
  match e.nextPhase with
  | some np => w.enterPhase np e.timestamp
  | none => w

/-- The phase that the event names, or else the current one, is ending. -/
def endPhase (w : PhaseWalk) (e : CycleEventRecord) : PhaseWalk :=
  match e.phase.or w.currentPhase with
  | some ending => w.closePhase ending e.timestamp
  | none => w

/-- The transition to the phase that is announced, if any. -/
def transition (w : PhaseWalk) (e : CycleEventRecord) : PhaseWalk :=
  match e.nextPhase with
  | some np => w.enterPhase np e.timestamp
  | none => { w with currentPhase := none }

/-- `cycle_phase_end`. -/
def cyclePhaseEnd (w : PhaseWalk) (e : CycleEventRecord) : PhaseWalk :=
  ({ w with transitions := w.transitions + 1 }.endPhase e).transition e

/-- `cycle_stop`. -/
def cycleStop (w : PhaseWalk) (e : CycleEventRecord) : PhaseWalk :=
  { w with
    totalDurationSecs :=
      if ∃ p ∈ w.currentPhase, p ∈ w.openUnclosed then w.totalDurationSecs + w.elapsed e.timestamp
      else w.totalDurationSecs
    openUnclosed := ∅
    currentPhase := none }

/-- The body of the loop. -/
def event (w : PhaseWalk) (e : CycleEventRecord) : PhaseWalk :=
  if e.eventType = "cycle_start".toList then w.cycleStart e
  else if e.eventType = "cycle_phase_end".toList then w.cyclePhaseEnd e
  else if e.eventType = "cycle_stop".toList then w.cycleStop e
  else w

/-- The loop. -/
def walk (events : List CycleEventRecord) : PhaseWalk := events.foldl event start

/-- What is reported. -/
def aggregates (w : PhaseWalk) : PhaseAggregates :=
  ⟨w.seenPhase.card, w.transitions, w.rework, w.openUnclosed.card, w.totalDurationSecs⟩

end PhaseWalk

/-- `ordered`. -/
def ordered (events : List CycleEventRecord) : List CycleEventRecord := StableSort.sortBy CycleEventRecord.key events

/-- `reckon_phase_aggregates`. -/
def reckonPhaseAggregates (events : List CycleEventRecord) : PhaseAggregates :=
  if events.isEmpty then ⟨0, 0, 0, 0, 0⟩ else (PhaseWalk.walk (ordered events)).aggregates

/-- The body of the first loop of `build_phase_narrative`. -/
def narrate (phaseSequence : List (List Char)) (e : CycleEventRecord) : List (List Char) :=
  if e.eventType = "cycle_start".toList then
    match e.nextPhase with
    | some np => if phaseSequence.getLast? ≠ some np then phaseSequence ++ [np] else phaseSequence
    | none => phaseSequence
  else if e.eventType = "cycle_phase_end".toList then
    match e.nextPhase with
    | some np => phaseSequence ++ [np]
    | none => phaseSequence
  else phaseSequence

/-- `PhaseNarrative`: what is read off the events. -/
structure PhaseNarrative where
  phaseSequence : List (List Char)
  reworkPhases : List (List Char)

/-- `build_phase_narrative`, parts 1 and 2. -/
def buildPhaseNarrative (events : List CycleEventRecord) : PhaseNarrative :=
  let phaseSequence := events.foldl narrate []
  ⟨phaseSequence, (phaseSequence.dedup.filter fun phase => 1 < phaseSequence.count phase).insertionSort (· ≤ ·)⟩

/-! ## What is to agree -/

/-- The events of a cycle; no two have the same timestamp and number. -/
structure CycleLog where
  events : List CycleEventRecord
  distinct : (events.map CycleEventRecord.key).Nodup

/-- The phase that an event announces. -/
def announced (e : CycleEventRecord) : Option (List Char) :=
  if e.eventType = "cycle_start".toList ∨ e.eventType = "cycle_phase_end".toList then e.nextPhase else none

/-- A start announces the phase that was announced last. -/
def Reannounces (events : List CycleEventRecord) : Prop :=
  ∃ pre e post, events = pre ++ e :: post ∧ e.eventType = "cycle_start".toList ∧
    ∃ np ∈ e.nextPhase, pre.reverse.findSome? announced = some np

/-- The aggregates do not depend on the order of the events, and their counts are those of the phase sequence. -/
structure Agrees (log : CycleLog) : Prop where
  order : ∀ events, events.Perm log.events → reckonPhaseAggregates events = reckonPhaseAggregates log.events
  phases : (reckonPhaseAggregates log.events).phaseCount =
    (buildPhaseNarrative (ordered log.events)).phaseSequence.toFinset.card
  rework : ((reckonPhaseAggregates log.events).phaseReworkCount : Int) =
    (buildPhaseNarrative (ordered log.events)).phaseSequence.length -
      (reckonPhaseAggregates log.events).phaseCount
  unclosed : (reckonPhaseAggregates log.events).phaseUnclosedCount ≤ (reckonPhaseAggregates log.events).phaseCount
  duration : ∀ first ∈ (ordered log.events).head?, ∀ last ∈ (ordered log.events).getLast?,
    (reckonPhaseAggregates log.events).phaseTotalDurationSecs.toInt ≤ last.timestamp.toInt - first.timestamp.toInt

/-! ## The order -/

theorem ordered_eq {log : CycleLog} {events : List CycleEventRecord} (h : events.Perm log.events) :
    ordered events = ordered log.events := by
  have hperm : (ordered events).Perm (ordered log.events) :=
    ((StableSort.sortBy_perm _ events).trans h).trans (StableSort.sortBy_perm _ log.events).symm
  refine hperm.eq_of_pairwise (fun a b ha hb hab hba => ?_) (StableSort.sortBy_pairwise _ events)
    (StableSort.sortBy_pairwise _ log.events)
  have ha' := h.mem_iff.mp ((StableSort.mem_sortBy _).mp ha)
  have hb' := (StableSort.mem_sortBy _).mp hb
  exact List.inj_on_of_nodup_map log.distinct ha' hb' (le_antisymm hab hba)

theorem reckon_of_perm {log : CycleLog} {events : List CycleEventRecord} (h : events.Perm log.events) :
    reckonPhaseAggregates events = reckonPhaseAggregates log.events := by
  unfold reckonPhaseAggregates
  rw [ordered_eq h, h.isEmpty_eq]

/-- An empty list of events is walked over too. -/
theorem reckon_eq (events : List CycleEventRecord) :
    reckonPhaseAggregates events = (PhaseWalk.walk (ordered events)).aggregates := by
  unfold reckonPhaseAggregates
  split
  · rename_i hempty
    rw [List.isEmpty_iff.mp hempty]
    rfl
  · rfl

/-! ## Entries -/

/-- What an event announces, the walk enters; an event that announces nothing changes no count of phases. -/
theorem event_counts (w : PhaseWalk) (e : CycleEventRecord) :
    (w.event e).seenPhase = (announced e).elim w.seenPhase (fun np => insert np w.seenPhase) ∧
      (w.event e).rework = (announced e).elim w.rework fun np => if np ∈ w.seenPhase then w.rework + 1 else w.rework := by
  unfold PhaseWalk.event announced
  by_cases hstart : e.eventType = "cycle_start".toList
  · rw [if_pos hstart, if_pos (.inl hstart)]
    unfold PhaseWalk.cycleStart
    cases e.nextPhase <;> exact ⟨rfl, rfl⟩
  · rw [if_neg hstart]
    by_cases hend : e.eventType = "cycle_phase_end".toList
    · rw [if_pos hend, if_pos (.inr hend)]
      unfold PhaseWalk.cyclePhaseEnd PhaseWalk.transition PhaseWalk.endPhase
      dsimp only
      cases e.nextPhase <;> cases e.phase.or w.currentPhase <;> exact ⟨rfl, rfl⟩
    · rw [if_neg hend, if_neg (not_or.mpr ⟨hstart, hend⟩)]
      split <;> exact ⟨rfl, rfl⟩

/-- The names that some events announce. -/
def names (events : List CycleEventRecord) : List (List Char) := events.filterMap announced

theorem names_concat (events : List CycleEventRecord) (e : CycleEventRecord) :
    names (events ++ [e]) = names events ++ (announced e).toList := by
  unfold names
  rw [List.filterMap_append]
  cases h : announced e with
  | none => rw [List.filterMap_cons_none h, List.filterMap_nil, Option.toList_none]
  | some np => rw [List.filterMap_cons_some h, List.filterMap_nil, Option.toList_some]

theorem toFinset_concat (names : List (List Char)) (np : List Char) :
    (names ++ [np]).toFinset = insert np names.toFinset := by
  ext x
  simp

/-- **The walk has seen the names that were announced, and counts the other entries as rework.** -/
theorem walk_counts (events : List CycleEventRecord) :
    (PhaseWalk.walk events).seenPhase = (names events).toFinset ∧
      (PhaseWalk.walk events).rework + (names events).toFinset.card = (names events).length := by
  induction events using List.reverseRecOn with
  | nil => exact ⟨rfl, rfl⟩
  | append_singleton events e ih =>
    obtain ⟨hseen, hrework⟩ := ih
    have hstep : PhaseWalk.walk (events ++ [e]) = (PhaseWalk.walk events).event e := List.foldl_concat _ _ _ _
    obtain ⟨hseen', hrework'⟩ := event_counts (PhaseWalk.walk events) e
    rw [hstep, hseen', hrework', names_concat]
    cases announced e with
    | none =>
      rw [Option.elim_none, Option.elim_none, Option.toList_none, List.append_nil]
      exact ⟨hseen, hrework⟩
    | some np =>
      rw [Option.elim_some, Option.elim_some, Option.toList_some, toFinset_concat, List.length_append, hseen]
      refine ⟨rfl, ?_⟩
      by_cases hmem : np ∈ (names events).toFinset
      · rw [if_pos hmem, Finset.insert_eq_of_mem hmem, List.length_singleton]
        omega
      · rw [if_neg hmem, Finset.card_insert_of_notMem hmem, List.length_singleton]
        omega

/-! ## The phase sequence -/

/-- An event that is no start announcing the last phase adds what it announces. -/
theorem narrate_cases (seq : List (List Char)) (e : CycleEventRecord) :
    (e.eventType = "cycle_start".toList ∧ (∃ np ∈ e.nextPhase, seq.getLast? = some np) ∧ narrate seq e = seq) ∨
      ((e.eventType = "cycle_start".toList → ∀ np ∈ e.nextPhase, seq.getLast? ≠ some np) ∧
        narrate seq e = seq ++ (announced e).toList) := by
  unfold narrate announced
  by_cases hstart : e.eventType = "cycle_start".toList
  · rw [if_pos hstart, if_pos (.inl hstart)]
    cases e.nextPhase with
    | none => exact .inr ⟨fun _ np hnp => (by cases hnp), (List.append_nil _).symm⟩
    | some np =>
      simp only
      split
      · rename_i hne
        exact .inr ⟨fun _ np' hnp' => Option.some.inj hnp' ▸ hne, rfl⟩
      · rename_i heq
        exact .inl ⟨hstart, ⟨np, rfl, not_not.mp heq⟩, rfl⟩
  · rw [if_neg hstart]
    refine .inr ⟨fun h => absurd h hstart, ?_⟩
    by_cases hend : e.eventType = "cycle_phase_end".toList
    · rw [if_pos hend, if_pos (.inr hend)]
      cases e.nextPhase with
      | none => exact (List.append_nil _).symm
      | some np => rfl
    · rw [if_neg hend, if_neg (not_or.mpr ⟨hstart, hend⟩)]
      exact (List.append_nil _).symm

/-- The phase sequence has the names that were announced, and ends in the last of them. -/
structure SequenceInv (events : List CycleEventRecord) (seq : List (List Char)) : Prop where
  names : seq.toFinset = (names events).toFinset
  last : seq.getLast? = events.reverse.findSome? announced
  length_le : seq.length ≤ (Phases.names events).length
  short_iff : seq.length < (Phases.names events).length ↔ Reannounces events

theorem not_reannounces_nil : ¬ Reannounces [] := by
  rintro ⟨pre, e, post, h, -⟩
  exact absurd h.symm (List.append_ne_nil_of_right_ne_nil _ (List.cons_ne_nil _ _))

/-- With one more event a start announces the last phase if one did before, or this one does. -/
theorem reannounces_concat (events : List CycleEventRecord) (e : CycleEventRecord) :
    Reannounces (events ++ [e]) ↔ Reannounces events ∨ (e.eventType = "cycle_start".toList ∧
      ∃ np ∈ e.nextPhase, events.reverse.findSome? announced = some np) := by
  constructor
  · rintro ⟨pre, e', post, heq, hstart, hnp⟩
    cases post using List.reverseRecOn with
    | nil =>
      obtain ⟨rfl, he⟩ := List.append_inj' heq rfl
      obtain rfl := List.singleton_inj.mp he
      exact .inr ⟨hstart, hnp⟩
    | append_singleton post last =>
      rw [← List.cons_append, ← List.append_assoc] at heq
      obtain ⟨rfl, -⟩ := List.append_inj' heq rfl
      exact .inl ⟨pre, e', post, rfl, hstart, hnp⟩
  · rintro (⟨pre, e', post, rfl, hstart, hnp⟩ | ⟨hstart, hnp⟩)
    · exact ⟨pre, e', post ++ [e], by rw [List.append_assoc, List.cons_append], hstart, hnp⟩
    · exact ⟨events, e, [], rfl, hstart, hnp⟩

/-- **The sequence is shorter than the names announced exactly if a start announced the last phase.** -/
theorem sequence_inv (events : List CycleEventRecord) : SequenceInv events (events.foldl narrate []) := by
  induction events using List.reverseRecOn with
  | nil =>
    exact ⟨rfl, rfl, le_rfl, fun h => absurd h (lt_irrefl _), fun h => absurd h not_reannounces_nil⟩
  | append_singleton events e ih =>
    have hlast : (events ++ [e]).reverse.findSome? announced =
        (announced e).or (events.reverse.findSome? announced) := by
      rw [List.reverse_append, List.reverse_singleton, List.singleton_append, List.findSome?_cons]
      cases announced e <;> rfl
    rw [List.foldl_concat]
    generalize events.foldl narrate [] = seq at ih ⊢
    have hle := ih.length_le
    have hshort := ih.short_iff
    rcases narrate_cases seq e with ⟨hstart, ⟨np, hnp, hseq⟩, heq⟩ | ⟨hnot, heq⟩
    · -- the phase is announced again
      have hannounced : announced e = some np := by
        unfold announced
        rw [if_pos (.inl hstart)]
        exact hnp
      have hmem : np ∈ (names events).toFinset := ih.names ▸ List.mem_toFinset.mpr (List.mem_of_getLast? hseq)
      rw [heq]
      refine ⟨?_, ?_, ?_, fun _ => ?_, fun _ => ?_⟩
      · rw [names_concat, hannounced, Option.toList_some, toFinset_concat, Finset.insert_eq_of_mem hmem, ih.names]
      · rw [hlast, hannounced, Option.some_or, hseq]
      · rw [names_concat, List.length_append]
        omega
      · exact (reannounces_concat events e).mpr (.inr ⟨hstart, np, hnp, ih.last ▸ hseq⟩)
      · rw [names_concat, hannounced, Option.toList_some, List.length_append, List.length_singleton]
        omega
    · rw [heq]
      refine ⟨?_, ?_, ?_, ?_⟩
      · rw [names_concat, List.toFinset_append, List.toFinset_append, ih.names]
      · rw [hlast, ← ih.last]
        cases announced e with
        | none => rw [Option.toList_none, List.append_nil, Option.none_or]
        | some np => rw [Option.toList_some, List.getLast?_concat, Option.some_or]
      · rw [names_concat, List.length_append, List.length_append]
        omega
      · rw [names_concat, List.length_append, List.length_append, Nat.add_lt_add_iff_right, reannounces_concat,
          or_iff_left fun h => ?_]
        · exact hshort
        · obtain ⟨hstart, np, hnp, hfound⟩ := h
          exact hnot hstart np hnp (ih.last.trans hfound)

/-! ## Phases that stay open -/

theorem event_open_subset {w : PhaseWalk} (h : w.openUnclosed ⊆ w.seenPhase) (e : CycleEventRecord) :
    (w.event e).openUnclosed ⊆ (w.event e).seenPhase := by
  have henter : ∀ (v : PhaseWalk) (np : List Char) (ts : Int64), v.openUnclosed ⊆ v.seenPhase →
      (v.enterPhase np ts).openUnclosed ⊆ (v.enterPhase np ts).seenPhase :=
    fun v np ts hv => Finset.insert_subset_insert np hv
  have hclose : ∀ (v : PhaseWalk) (ending : List Char) (ts : Int64), v.openUnclosed ⊆ v.seenPhase →
      (v.closePhase ending ts).openUnclosed ⊆ (v.closePhase ending ts).seenPhase :=
    fun v ending ts hv => (Finset.erase_subset _ _).trans hv
  unfold PhaseWalk.event
  split
  · unfold PhaseWalk.cycleStart
    cases e.nextPhase with
    | none => exact h
    | some np => exact henter w np e.timestamp h
  split
  · unfold PhaseWalk.cyclePhaseEnd PhaseWalk.transition
    have hended : (PhaseWalk.endPhase { w with transitions := w.transitions + 1 } e).openUnclosed ⊆
        (PhaseWalk.endPhase { w with transitions := w.transitions + 1 } e).seenPhase := by
      unfold PhaseWalk.endPhase
      split
      · exact hclose _ _ e.timestamp h
      · exact h
    cases e.nextPhase with
    | none => exact hended
    | some np => exact henter _ np e.timestamp hended
  split
  · exact Finset.empty_subset _
  · exact h

theorem walk_open_subset (events : List CycleEventRecord) :
    (PhaseWalk.walk events).openUnclosed ⊆ (PhaseWalk.walk events).seenPhase := by
  induction events using List.reverseRecOn with
  | nil => exact Finset.Subset.refl _
  | append_singleton events e ih =>
    have hstep : PhaseWalk.walk (events ++ [e]) = (PhaseWalk.walk events).event e := List.foldl_concat _ _ _ _
    rw [hstep]
    exact event_open_subset ih e

/-! ## The duration -/

/-- The windows that were counted lie one after the other: `spent` is their length together, before it is brought into
the range, and no longer than from `first` to where the open window begins, or to `now` if none is open. -/
structure Timed (first now : Int) (w : PhaseWalk) (spent : Int) : Prop where
  total : w.totalDurationSecs.toInt = spent.bmod (2 ^ 64)
  nonneg : 0 ≤ spent
  closed : spent ≤ now - first
  opened : w.currentPhase.isSome → spent ≤ w.currentStartSecs.toInt - first ∧ w.currentStartSecs.toInt ≤ now

/-- A sum that is not negative gets no larger when it is brought into the range. -/
theorem bmod_le_self {d : Int} (h : 0 ≤ d) : d.bmod (2 ^ 64) ≤ d := by
  have hle : d % (2 ^ 64 : Nat) ≤ d := by omega
  unfold Int.bmod
  dsimp only
  split <;> omega

theorem elapsed_bounds {w : PhaseWalk} {timestamp : Int64} (h : w.currentStartSecs.toInt ≤ timestamp.toInt) :
    0 ≤ (w.elapsed timestamp).toInt ∧
      (w.elapsed timestamp).toInt ≤ timestamp.toInt - w.currentStartSecs.toInt := by
  have hzero : (0 : Int64).toInt = 0 := rfl
  unfold PhaseWalk.elapsed
  dsimp only
  split
  · omega
  · rename_i hge
    rw [Int64.not_lt, Int64.le_iff_toInt_le, hzero] at hge
    refine ⟨hge, ?_⟩
    rw [Int64.toInt_sub]
    exact bmod_le_self (by omega)

/-- Later than `now` too. -/
theorem Timed.mono {first now later spent : Int} {w : PhaseWalk} (h : Timed first now w spent) (hlater : now ≤ later) :
    Timed first later w spent := by
  have hclosed := h.closed
  exact ⟨h.total, h.nonneg, by omega, fun hopen => ⟨(h.opened hopen).1, (h.opened hopen).2.trans hlater⟩⟩

/-- A window is counted. -/
theorem Timed.count {first spent : Int} {w : PhaseWalk} {timestamp : Int64} (h : Timed first timestamp.toInt w spent)
    (hopen : w.currentPhase.isSome) :
    ∃ spent', (w.totalDurationSecs + w.elapsed timestamp).toInt = spent'.bmod (2 ^ 64) ∧ 0 ≤ spent' ∧
      spent' ≤ timestamp.toInt - first := by
  obtain ⟨hspent, hstart⟩ := h.opened hopen
  obtain ⟨hge, hle⟩ := elapsed_bounds hstart
  have hnonneg := h.nonneg
  refine ⟨spent + (w.elapsed timestamp).toInt, ?_, by omega, by omega⟩
  rw [Int64.toInt_add, h.total, Int.bmod_add_bmod]

/-- The phase that is ending is closed, and its window counted if it was the current one. -/
theorem Timed.endPhase {first spent : Int} {w : PhaseWalk} {e : CycleEventRecord}
    (h : Timed first e.timestamp.toInt w spent) :
    ∃ spent', (w.endPhase e).totalDurationSecs.toInt = spent'.bmod (2 ^ 64) ∧ 0 ≤ spent' ∧
      spent' ≤ e.timestamp.toInt - first := by
  have hkept : ∃ spent', w.totalDurationSecs.toInt = spent'.bmod (2 ^ 64) ∧ 0 ≤ spent' ∧
      spent' ≤ e.timestamp.toInt - first := ⟨spent, h.total, h.nonneg, h.closed⟩
  unfold PhaseWalk.endPhase
  split
  · unfold PhaseWalk.closePhase
    dsimp only
    split
    · rename_i hcurrent
      exact h.count (by rw [hcurrent]; rfl)
    · exact hkept
  · exact hkept

/-- A phase is entered now, or none is open. -/
theorem Timed.transition {first spent : Int} {w : PhaseWalk} {e : CycleEventRecord}
    (htotal : w.totalDurationSecs.toInt = spent.bmod (2 ^ 64)) (hnonneg : 0 ≤ spent)
    (hspent : spent ≤ e.timestamp.toInt - first) : Timed first e.timestamp.toInt (w.transition e) spent := by
  unfold PhaseWalk.transition
  split
  · exact ⟨htotal, hnonneg, hspent, fun _ => ⟨hspent, le_rfl⟩⟩
  · exact ⟨htotal, hnonneg, hspent, fun h => by cases h⟩

/-- **An event keeps the windows apart.** -/
theorem Timed.event {first spent : Int} {w : PhaseWalk} {e : CycleEventRecord}
    (h : Timed first e.timestamp.toInt w spent) : ∃ spent', Timed first e.timestamp.toInt (w.event e) spent' := by
  unfold PhaseWalk.event
  split
  · unfold PhaseWalk.cycleStart
    split
    · exact ⟨spent, h.total, h.nonneg, h.closed, fun _ => ⟨h.closed, le_rfl⟩⟩
    · exact ⟨spent, h⟩
  split
  · have hcounted : Timed first e.timestamp.toInt { w with transitions := w.transitions + 1 } spent :=
      ⟨h.total, h.nonneg, h.closed, h.opened⟩
    obtain ⟨spent', htotal, hnonneg, hle⟩ := hcounted.endPhase
    exact ⟨spent', Timed.transition htotal hnonneg hle⟩
  split
  · unfold PhaseWalk.cycleStop
    by_cases hopen : ∃ p ∈ w.currentPhase, p ∈ w.openUnclosed
    · obtain ⟨p, hp, -⟩ := id hopen
      obtain ⟨spent', htotal, hnonneg, hle⟩ := h.count (Option.isSome_of_mem hp)
      rw [if_pos hopen]
      exact ⟨spent', htotal, hnonneg, hle, fun h => by cases h⟩
    · rw [if_neg hopen]
      exact ⟨spent, h.total, h.nonneg, h.closed, fun h => by cases h⟩
  · exact ⟨spent, h⟩

theorem walk_timed {first now : Int} {events : List CycleEventRecord}
    (hsorted : events.Pairwise fun a b => a.timestamp.toInt ≤ b.timestamp.toInt)
    (hfirst : ∀ e ∈ events, first ≤ e.timestamp.toInt) (hnow : ∀ e ∈ events, e.timestamp.toInt ≤ now)
    (hle : first ≤ now) : ∃ spent, Timed first now (PhaseWalk.walk events) spent := by
  induction events using List.reverseRecOn generalizing now with
  | nil => exact ⟨0, rfl, le_rfl, by omega, fun h => by cases h⟩
  | append_singleton events e ih =>
    rw [List.pairwise_append] at hsorted
    have he : e ∈ events ++ [e] := List.mem_append_right _ (List.mem_singleton_self e)
    obtain ⟨spent, htimed⟩ := ih hsorted.1 (fun e' he' => hfirst e' (List.mem_append_left _ he'))
      (fun e' he' => hsorted.2.2 e' he' e (List.mem_singleton_self e)) (hfirst e he)
    obtain ⟨spent', htimed'⟩ := htimed.event
    have hstep : PhaseWalk.walk (events ++ [e]) = (PhaseWalk.walk events).event e := List.foldl_concat _ _ _ _
    exact ⟨spent', hstep ▸ htimed'.mono (hnow e he)⟩

theorem ordered_timestamps (events : List CycleEventRecord) :
    (ordered events).Pairwise fun a b => a.timestamp.toInt ≤ b.timestamp.toInt := by
  refine (StableSort.sortBy_pairwise CycleEventRecord.key events).imp fun {a b} h => ?_
  rcases (Prod.Lex.toLex_le_toLex).mp h with h | h
  · exact h.le
  · exact h.1.le

/-- **The duration is no longer than from the first event to the last.** -/
theorem duration_le {events : List CycleEventRecord} {first last : CycleEventRecord}
    (hfirst : (ordered events).head? = some first) (hlast : (ordered events).getLast? = some last) :
    (reckonPhaseAggregates events).phaseTotalDurationSecs.toInt ≤ last.timestamp.toInt - first.timestamp.toInt := by
  have hsorted := ordered_timestamps events
  rw [reckon_eq]
  generalize ordered events = sorted at *
  have hmin : ∀ e ∈ sorted, first.timestamp.toInt ≤ e.timestamp.toInt := by
    obtain ⟨rest, rfl⟩ := List.head?_eq_some_iff.mp hfirst
    intro e he
    rcases List.mem_cons.mp he with rfl | he
    · exact le_rfl
    · exact List.rel_of_pairwise_cons hsorted he
  have hmax : ∀ e ∈ sorted, e.timestamp.toInt ≤ last.timestamp.toInt := by
    obtain ⟨rest, rfl⟩ := List.getLast?_eq_some_iff.mp hlast
    intro e he
    rcases List.mem_append.mp he with he | he
    · exact (List.pairwise_append.mp hsorted).2.2 e he last (List.mem_singleton_self last)
    · rw [List.mem_singleton.mp he]
  obtain ⟨spent, htimed⟩ := walk_timed hsorted hmin hmax (hmax first (List.mem_of_mem_head? hfirst))
  calc (PhaseWalk.walk sorted).totalDurationSecs.toInt = spent.bmod (2 ^ 64) := htimed.total
    _ ≤ spent := bmod_le_self htimed.nonneg
    _ ≤ last.timestamp.toInt - first.timestamp.toInt := htimed.closed

/-! ## Agreement -/

/-- **The aggregates agree with the narrative exactly if no start announces the phase that was announced last.** -/
theorem agrees_iff (log : CycleLog) : Agrees log ↔ ¬ Reannounces (ordered log.events) := by
  obtain ⟨hseen, hrework⟩ := walk_counts (ordered log.events)
  have hseq := sequence_inv (ordered log.events)
  have haggregates := reckon_eq log.events
  have hphases : (reckonPhaseAggregates log.events).phaseCount = (names (ordered log.events)).toFinset.card := by
    rw [haggregates, ← hseen]
    rfl
  have hcounted : (reckonPhaseAggregates log.events).phaseReworkCount =
      (PhaseWalk.walk (ordered log.events)).rework := by rw [haggregates]; rfl
  have hlength : (buildPhaseNarrative (ordered log.events)).phaseSequence.length =
      ((ordered log.events).foldl narrate []).length := rfl
  have hle := hseq.length_le
  have hshort := hseq.short_iff
  constructor
  · intro h hre
    have hlt := hshort.mpr hre
    have heq := h.rework
    omega
  · intro hre
    have hnot := mt hshort.mp hre
    refine ⟨fun events hperm => reckon_of_perm hperm, ?_, by omega, ?_, fun first hfirst last hlast =>
      duration_le hfirst hlast⟩
    · exact hphases.trans (congrArg Finset.card hseq.names.symm)
    · rw [haggregates]
      exact Finset.card_le_card (walk_open_subset (ordered log.events))

/-- Two starts announce the same phase: one entry is rework, and the sequence has the phase once. -/
theorem restart_disagrees : ¬ ∀ log : CycleLog, Agrees log := by
  let restart : CycleLog :=
    ⟨[⟨1, "cycle_start".toList, none, some "scope".toList, 100⟩,
      ⟨2, "cycle_start".toList, none, some "scope".toList, 200⟩], by decide⟩
  intro h
  have hcount : (reckonPhaseAggregates restart.events).phaseReworkCount = 1 := by decide
  have hphases : (reckonPhaseAggregates restart.events).phaseCount = 1 := by decide
  have hlength : (buildPhaseNarrative (ordered restart.events)).phaseSequence.length = 1 := by decide
  have hrework := (h restart).rework
  omega

end Unimatrix.Phases
