import Unimatrix.Lib.Runs
import Unimatrix.Vector.Index

/-!
# A compaction among inserts

One `compact(embeddings)` and any number of `insert` calls at once. A lock acquisition, an access to `next_data_id`
and a store call are one step each, and the steps come in any order.

* An insert takes its data id, pushes its point, puts its row and updates the id map. Between two of these anything
  else may happen (`Stage`). A call whose embedding is refused takes no step.
* `compact` builds its graph on its own, rewrites the table, takes the lock of the graph, swaps both under the lock of
  the id map, and resets the counter (`Phase`). It ends without a step where an embedding is refused, and at the
  rewrite where that fails.
* A step that is not due does nothing, so a run is any list of steps.
* `Permitted`: what a step may find. Up to the swap only the table matters, since the swap replaces the rest.
* **`compaction_consistent`**: a run of permitted steps in which all calls end leaves map, graph and table
  `Consistent`. `compaction_overtaken`: an insert takes its data id, and the compaction overtakes it.
-/

namespace Unimatrix.Vector.Compaction

open Unimatrix.Vector

/-! ## Calls -/

/-- Where an insert is; its data id comes with it. -/
inductive Stage where
  | start
  | taken (dataId : Nat)
  | pushed (dataId : Nat)
  | recorded (dataId : Nat)
  | done
  deriving DecidableEq, Repr

/-- An `insert` call. -/
structure Call (V : Type) where
  entryId : Nat
  embedding : V
  stage : Stage

/-- Where `compact` is. -/
inductive Phase where
  | start
  | rewritten
  | locked
  | swapped
  | done
  deriving DecidableEq, Repr

variable {V : Type}

/-- The index, the table and the calls. -/
structure State (V : Type) where
  index : VectorIndex V
  vectorMap : VectorMap
  calls : List (Call V)
  embeddings : List (Nat × V)
  rewriteFails : Bool
  phase : Phase

/-- A step of the insert at a place, or of `compact`. -/
inductive Step where
  | take (i : Nat)
  | push (i : Nat)
  | put (i : Nat) (fails : Bool)
  | publish (i : Nat)
  | rewrite
  | lock
  | swap
  | reset
  deriving DecidableEq, Repr

namespace State

variable (cfg : Config V) (s : State V)

/-- The table that `compact` writes: none where an embedding is refused or the write fails. -/
def rewritten : Option VectorMap :=
  if s.embeddings.all (cfg.valid ·.2) && !s.rewriteFails then rewriteVectorMap (VectorIndex.renumbered s.embeddings)
  else none

/-- The call at a place goes on to a stage. -/
def moved (i : Nat) (call : Call V) (stage : Stage) : List (Call V) := s.calls.set i { call with stage := stage }

/-- `next_data_id.fetch_add`. -/
def take (i : Nat) (call : Call V) : State V :=
  match call.stage with
  | .start =>
    if cfg.valid call.embedding then
      { s with index := s.index.allocateDataId.2, calls := s.moved i call (.taken s.index.allocateDataId.1) }
    else s
  | _ => s

/-- `hnsw.insert_slice` under the lock of the graph. -/
def push (i : Nat) (call : Call V) : State V :=
  match call.stage with
  | .taken d =>
    if s.phase = .locked then s
    else { s with index := s.index.insertSlice d call.embedding, calls := s.moved i call (.pushed d) }
  | _ => s

/-- `put_vector_mapping`. -/
def put (fails : Bool) (i : Nat) (call : Call V) : State V :=
  match call.stage with
  | .pushed d =>
    if fails then { s with calls := s.moved i call .done }
    else { s with vectorMap := s.vectorMap.insert call.entryId d, calls := s.moved i call (.recorded d) }
  | _ => s

/-- The update of the id map under its lock. -/
def publish (i : Nat) (call : Call V) : State V :=
  match call.stage with
  | .recorded d => { s with index := s.index.publish call.entryId d, calls := s.moved i call .done }
  | _ => s

/-- A step of the call at a place, if there is one. -/
def callAt (step : Nat → Call V → State V) (i : Nat) : State V :=
  match s.calls[i]? with
  | some call => step i call
  | none => s

/-- One step. -/
def step : Step → State V
  | .take i => s.callAt (s.take cfg) i
  | .push i => s.callAt s.push i
  | .put i fails => s.callAt (s.put fails) i
  | .publish i => s.callAt s.publish i
  | .rewrite =>
    if s.phase = .start then
      match s.rewritten cfg with
      | some table => { s with vectorMap := table, phase := .rewritten }
      | none => { s with phase := .done }
    else s
  | .lock => if s.phase = .rewritten then { s with phase := .locked } else s
  | .swap => if s.phase = .locked then { s with index := s.index.swap s.embeddings, phase := .swapped } else s
  | .reset =>
    if s.phase = .swapped then { s with index := s.index.resetNextDataId s.embeddings, phase := .done } else s

/-- The calls before their first step. -/
def begin (index : VectorIndex V) (vectorMap : VectorMap) (inserts embeddings : List (Nat × V)) (rewriteFails : Bool) :
    State V :=
  ⟨index, vectorMap, inserts.map fun e => ⟨e.1, e.2, .start⟩, embeddings, rewriteFails, .start⟩

/-- All calls have ended; a refused one ends before its first step. -/
def Finished : Prop :=
  s.phase = .done ∧ ∀ call ∈ s.calls, call.stage = .done ∨ (call.stage = .start ∧ cfg.valid call.embedding = false)

end State

/-! ## What is asked, and when it holds -/

/-- The map is one to one, no data id labels two points, and the table has what the map has. -/
structure Consistent (index : VectorIndex V) (vectorMap : VectorMap) : Prop where
  inverse : index.idMap.Inverse
  labels : index.labels.Nodup
  recorded : ∀ e d, index.idMap.entryToData.lookup e = some d → vectorMap.lookup e = some d

section Conditions

variable (cfg : Config V) (s : State V)

/-- The insert has a step to take. -/
def Call.Pending (call : Call V) : Prop :=
  call.stage ≠ .done ∧ (call.stage = .start → cfg.valid call.embedding = true)

/-- An insert of the entry has not ended. -/
def Pending (e : Nat) : Prop := ∃ call ∈ s.calls, call.entryId = e ∧ call.Pending cfg

/-- An insert of the entry, other than the one at the place, has not ended. -/
def PendingElsewhere (i e : Nat) : Prop :=
  ∃ j call, j ≠ i ∧ s.calls[j]? = some call ∧ call.entryId = e ∧ call.Pending cfg

/-- What is there now is there in the end: `compact` has swapped, or it will not. -/
def Live : Prop := s.rewritten cfg = none ∨ s.phase = .swapped ∨ s.phase = .done

/-- The condition of a step on the state it meets. -/
def Permitted : Step → Prop
  | .push i => Live cfg s → ∀ call d, s.calls[i]? = some call → call.stage = .taken d → d ∉ s.index.labels
  | .put i fails => Live cfg s → fails = true → ∀ call d d', s.calls[i]? = some call → call.stage = .pushed d →
    s.index.idMap.entryToData.lookup call.entryId = some d' →
      s.vectorMap.lookup call.entryId = some d' ∨ PendingElsewhere cfg s i call.entryId
  | .publish i => Live cfg s → ∀ call d, s.calls[i]? = some call → call.stage = .recorded d →
    (∀ e, s.index.reportedAs d = some e → e = call.entryId) ∧
      (s.vectorMap.lookup call.entryId = some d ∨ PendingElsewhere cfg s i call.entryId)
  | .swap => s.phase = .locked → ∀ e d, (e, d) ∈ VectorIndex.renumbered s.embeddings →
    s.vectorMap.lookup e = some d ∨ Pending cfg s e
  | _ => True

end Conditions

/-! ## The invariant -/

/-- What permitted steps keep: once the maps are there to stay, they are one to one, and an entry whose row differs
has an insert under way. -/
structure Inv (cfg : Config V) (s : State V) : Prop where
  begun : s.phase = .rewritten ∨ s.phase = .locked ∨ s.phase = .swapped →
    ((VectorIndex.renumbered s.embeddings).map Prod.fst).Nodup
  inverse : Live cfg s → s.index.idMap.Inverse
  labels : Live cfg s → s.index.labels.Nodup
  recorded : Live cfg s → ∀ e d, s.index.idMap.entryToData.lookup e = some d →
    s.vectorMap.lookup e = some d ∨ Pending cfg s e

section Steps

variable {cfg : Config V} {s : State V}

/-- In the end the invariant says what is asked. -/
theorem Inv.consistent (h : Inv cfg s) (hfinished : s.Finished cfg) : Consistent s.index s.vectorMap := by
  have hlive : Live cfg s := .inr (.inr hfinished.1)
  refine ⟨h.inverse hlive, h.labels hlive, fun e d hd => ?_⟩
  rcases h.recorded hlive e d hd with hrow | ⟨call, hcall, -, hpending⟩
  · exact hrow
  · rcases hfinished.2 call hcall with hdone | ⟨hstart, hrefused⟩
    · exact absurd hdone hpending.1
    · rw [hpending.2 hstart] at hrefused
      cases hrefused

/-! ### Who is pending -/

/-- An insert elsewhere is there after the call at a place has moved. -/
theorem PendingElsewhere.moved {i e : Nat} (h : PendingElsewhere cfg s i e) (call : Call V) (stage : Stage) :
    ∃ call' ∈ s.moved i call stage, call'.entryId = e ∧ call'.Pending cfg := by
  obtain ⟨j, other, hne, hother, hentry, hpending⟩ := h
  refine ⟨other, List.mem_of_getElem? (i := j) ?_, hentry, hpending⟩
  unfold State.moved
  rw [List.getElem?_set_ne hne.symm]
  exact hother

/-- An entry with an insert under way is the entry of the call at a place, or has one elsewhere. -/
theorem Pending.elsewhere {e : Nat} (h : Pending cfg s e) {i : Nat} {call : Call V}
    (hcall : s.calls[i]? = some call) (hne : call.entryId ≠ e) : PendingElsewhere cfg s i e := by
  obtain ⟨other, hother, hentry, hpending⟩ := h
  obtain ⟨j, hj⟩ := List.mem_iff_getElem?.mp hother
  refine ⟨j, other, ?_, hj, hentry, hpending⟩
  rintro rfl
  exact hne (Option.some.inj (hcall.symm.trans hj) ▸ hentry)

/-- A call that moves on and has not ended keeps its entry pending. -/
theorem pending_moved {i : Nat} {call : Call V} (hcall : s.calls[i]? = some call) {stage : Stage}
    (hstage : stage ≠ .done) (hstart : stage ≠ .start) {e : Nat} (h : Pending cfg s e) :
    ∃ call' ∈ s.moved i call stage, call'.entryId = e ∧ call'.Pending cfg := by
  by_cases hentry : call.entryId = e
  · refine ⟨{ call with stage := stage }, List.mem_of_getElem? (i := i) ?_, hentry, hstage,
      fun heq => absurd heq hstart⟩
    unfold State.moved
    rw [List.getElem?_set_self (List.getElem?_eq_some_iff.mp hcall).1]
  · exact (h.elsewhere hcall hentry).moved call stage

/-! ### The steps of an insert -/

theorem Inv.callAt (h : Inv cfg s) {step : Nat → Call V → State V} {i : Nat}
    (hstep : ∀ call, s.calls[i]? = some call → Inv cfg (step i call)) : Inv cfg (s.callAt step i) := by
  unfold State.callAt
  split
  · rename_i call hcall
    exact hstep call hcall
  · exact h

theorem Inv.take (h : Inv cfg s) {i : Nat} {call : Call V} (hcall : s.calls[i]? = some call) :
    Inv cfg (s.take cfg i call) := by
  unfold State.take
  split
  · by_cases hvalid : cfg.valid call.embedding = true
    · rw [if_pos hvalid]
      exact ⟨h.begun, h.inverse, h.labels, fun hlive e d hd => (h.recorded hlive e d hd).imp_right
        (pending_moved hcall (by simp) (by simp))⟩
    · rw [if_neg hvalid]
      exact h
  · exact h

theorem Inv.push (h : Inv cfg s) {i : Nat} (hstep : Permitted cfg s (.push i)) {call : Call V}
    (hcall : s.calls[i]? = some call) : Inv cfg (s.push i call) := by
  unfold State.push
  split
  · rename_i d hstage
    by_cases hlocked : s.phase = .locked
    · rw [if_pos hlocked]
      exact h
    · rw [if_neg hlocked]
      refine ⟨h.begun, h.inverse, fun hlive => ?_, fun hlive e d hd => (h.recorded hlive e d hd).imp_right
        (pending_moved hcall (by simp) (by simp))⟩
      have hfree : d ∉ s.index.labels := hstep hlive call d hcall hstage
      exact VectorIndex.labels_insertSlice_nodup.mpr ⟨h.labels hlive, hfree⟩
  · exact h

theorem Inv.put (h : Inv cfg s) {i : Nat} {fails : Bool} (hstep : Permitted cfg s (.put i fails)) {call : Call V}
    (hcall : s.calls[i]? = some call) : Inv cfg (s.put fails i call) := by
  unfold State.put
  split
  · rename_i d hstage
    by_cases hfails : fails = true
    · rw [if_pos hfails]
      refine ⟨h.begun, h.inverse, h.labels, fun hlive e d' hd' => ?_⟩
      by_cases hentry : call.entryId = e
      · subst hentry
        exact (hstep hlive hfails call d d' hcall hstage hd').imp_right fun hother => hother.moved call _
      · exact (h.recorded hlive e d' hd').imp_right fun hpending => (hpending.elsewhere hcall hentry).moved call _
    · rw [if_neg hfails]
      refine ⟨h.begun, h.inverse, h.labels, fun hlive e d' hd' => ?_⟩
      have hmoved : Pending cfg s e → ∃ call' ∈ s.moved i call (.recorded d), call'.entryId = e ∧ call'.Pending cfg :=
        pending_moved hcall (by simp) (by simp)
      by_cases hentry : e = call.entryId
      · exact .inr (hmoved ⟨call, List.mem_of_getElem? hcall, hentry.symm, by simp [Call.Pending, hstage]⟩)
      · refine (h.recorded hlive e d' hd').imp (fun hrow => ?_) hmoved
        rwa [HashMap.lookup_insert_eq, if_neg hentry]
  · exact h

theorem Inv.publish (h : Inv cfg s) {i : Nat} (hstep : Permitted cfg s (.publish i)) {call : Call V}
    (hcall : s.calls[i]? = some call) : Inv cfg (s.publish i call) := by
  unfold State.publish
  split
  · rename_i d hstage
    refine ⟨h.begun, fun hlive => ?_, h.labels, fun hlive e d' hd' => ?_⟩
    · exact (h.inverse hlive).insert (hstep hlive call d hcall hstage).1
    · have hmap : (s.index.idMap.insert call.entryId d).entryToData.lookup e = some d' := hd'
      rw [IdMap.entryToData_insert] at hmap
      split_ifs at hmap with hentry
      · cases hmap
        subst hentry
        exact (hstep hlive call d hcall hstage).2.imp_right fun hother => hother.moved call _
      · exact (h.recorded hlive e d' hmap).imp_right fun hpending =>
          (hpending.elsewhere hcall fun heq => hentry heq.symm).moved call _
  · exact h

/-! ### The steps of the compaction -/

theorem Inv.rewrite (h : Inv cfg s) : Inv cfg (s.step cfg .rewrite) := by
  simp only [State.step]
  split
  · cases hrewritten : s.rewritten cfg with
    | some table =>
      -- the maps are about to be replaced
      have hnot : ¬ Live cfg { s with vectorMap := table, phase := .rewritten } := by
        rintro (hnone | hphase | hphase)
        · have hsome : s.rewritten cfg = none := hnone
          rw [hrewritten] at hsome
          cases hsome
        · cases hphase
        · cases hphase
      refine ⟨fun _ => ?_, fun hlive => absurd hlive hnot, fun hlive => absurd hlive hnot,
        fun hlive => absurd hlive hnot⟩
      unfold State.rewritten at hrewritten
      split_ifs at hrewritten
      exact (rewriteVectorMap_eq_some hrewritten).1
    | none =>
      have hlive : Live cfg s := .inl hrewritten
      exact ⟨fun hphase => by simp at hphase, fun _ => h.inverse hlive, fun _ => h.labels hlive,
        fun _ => h.recorded hlive⟩
  · exact h

theorem Inv.lock (h : Inv cfg s) : Inv cfg (s.step cfg .lock) := by
  simp only [State.step]
  split
  · rename_i hphase
    have hlive : Live cfg { s with phase := .locked } → Live cfg s := by
      rintro (hnone | hlocked | hlocked)
      · exact .inl hnone
      · cases hlocked
      · cases hlocked
    exact ⟨fun _ => h.begun (.inl hphase), fun hl => h.inverse (hlive hl), fun hl => h.labels (hlive hl),
      fun hl => h.recorded (hlive hl)⟩
  · exact h

/-- **The swap puts in place what the compaction built.** -/
theorem Inv.swap (h : Inv cfg s) (hstep : Permitted cfg s .swap) : Inv cfg (s.step cfg .swap) := by
  simp only [State.step]
  split
  · rename_i hphase
    have hentries := h.begun (.inr (.inl hphase))
    have hdata := VectorIndex.data_renumbered_nodup s.embeddings
    refine ⟨fun _ => hentries, fun _ => IdMap.inverse_ofPairs hentries hdata,
      fun _ => VectorIndex.labels_rebuilt_nodup s.embeddings, fun _ e d hd => ?_⟩
    exact hstep hphase e d ((IdMap.entryToData_ofPairs hentries e d).mp hd)
  · exact h

theorem Inv.reset (h : Inv cfg s) : Inv cfg (s.step cfg .reset) := by
  simp only [State.step]
  split
  · rename_i hphase
    have hlive : Live cfg s := .inr (.inl hphase)
    exact ⟨fun hdone => by simp at hdone, fun _ => h.inverse hlive, fun _ => h.labels hlive,
      fun _ => h.recorded hlive⟩
  · exact h

/-- **A permitted step keeps the invariant.** -/
theorem Inv.step (h : Inv cfg s) {a : Step} (hstep : Permitted cfg s a) : Inv cfg (s.step cfg a) := by
  cases a with
  | take i => exact h.callAt fun _ => h.take
  | push i => exact h.callAt fun _ => h.push hstep
  | put i fails => exact h.callAt fun _ => h.put hstep
  | publish i => exact h.callAt fun _ => h.publish hstep
  | rewrite => exact h.rewrite
  | lock => exact h.lock
  | swap => exact h.swap hstep
  | reset => exact h.reset

end Steps

/-- **Runs of permitted steps**: from a consistent index, when all calls have ended the index is consistent. -/
theorem compaction_consistent (cfg : Config V) (index : VectorIndex V) (vectorMap : VectorMap)
    (hindex : Consistent index vectorMap) (inserts embeddings : List (Nat × V)) (rewriteFails : Bool)
    (steps : List Step)
    (hsteps : Runs.Throughout (State.step cfg) (Permitted cfg)
      (.begin index vectorMap inserts embeddings rewriteFails) steps)
    (hfinished : (steps.foldl (State.step cfg) (.begin index vectorMap inserts embeddings rewriteFails)).Finished cfg) :
    Consistent (steps.foldl (State.step cfg) (.begin index vectorMap inserts embeddings rewriteFails)).index
      (steps.foldl (State.step cfg) (.begin index vectorMap inserts embeddings rewriteFails)).vectorMap := by
  have hbegin : Inv cfg (.begin index vectorMap inserts embeddings rewriteFails) :=
    ⟨fun hphase => by simp [State.begin] at hphase, fun _ => hindex.inverse, fun _ => hindex.labels,
      fun _ e d hd => .inl (hindex.recorded e d hd)⟩
  exact (hsteps.invariant (fun _ _ h hstep => h.step hstep) hbegin).consistent hfinished

/-- Vectors that are all valid. -/
def allValid : Config Nat := ⟨fun _ => true, fun _ => 384⟩

/-- An insert and a compaction of another entry, on an empty index. -/
def twoEntries : State Nat := .begin .new ∅ [(2, 8)] [(1, 7)] false

theorem consistent_new : Consistent (.new : VectorIndex V) ∅ :=
  ⟨IdMap.inverse_new, List.nodup_nil, fun e d hd => by
    have hnone : (AList.lookup e (∅ : HashMap Nat Nat)) = some d := hd
    rw [AList.lookup_empty] at hnone
    cases hnone⟩

/-- The compaction, and then the insert. -/
theorem compaction_consistent_before :
    Consistent
      (([.rewrite, .lock, .swap, .reset, .take 0, .push 0, .put 0 false, .publish 0] : List Step).foldl
        (State.step allValid) twoEntries).index
      (([.rewrite, .lock, .swap, .reset, .take 0, .push 0, .put 0 false, .publish 0] : List Step).foldl
        (State.step allValid) twoEntries).vectorMap := by
  have hsteps : Runs.Throughout (State.step allValid) (Permitted allValid) twoEntries
      [.rewrite, .lock, .swap, .reset, .take 0, .push 0, .put 0 false, .publish 0] := by
    refine ⟨trivial, trivial, ?_, trivial, trivial, ?_, ?_, ?_, trivial⟩
    · intro _ e d hmem
      obtain ⟨rfl, rfl⟩ := Prod.mk.inj (List.mem_singleton.mp hmem)
      exact .inl rfl
    · intro _ call d hcall hstage
      obtain rfl := Option.some.inj hcall
      cases hstage
      decide
    · intro _ hfails
      cases hfails
    · intro _ call d hcall hstage
      obtain rfl := Option.some.inj hcall
      cases hstage
      refine ⟨fun e he => ?_, .inl rfl⟩
      cases he
  refine compaction_consistent allValid .new ∅ consistent_new [(2, 8)] [(1, 7)] false _ hsteps ⟨rfl, ?_⟩
  intro call hcall
  obtain rfl := List.mem_singleton.mp hcall
  exact .inl rfl

/-- The insert takes the data id 0, then all of the compaction runs and gives the data id 0 as well. -/
theorem compaction_overtaken :
    Consistent (.new : VectorIndex Nat) ∅ ∧
      (([.take 0, .rewrite, .lock, .swap, .reset, .push 0, .put 0 false, .publish 0] : List Step).foldl
        (State.step allValid) twoEntries).Finished allValid ∧
      ¬ Consistent
        (([.take 0, .rewrite, .lock, .swap, .reset, .push 0, .put 0 false, .publish 0] : List Step).foldl
          (State.step allValid) twoEntries).index
        (([.take 0, .rewrite, .lock, .swap, .reset, .push 0, .put 0 false, .publish 0] : List Step).foldl
          (State.step allValid) twoEntries).vectorMap := by
  refine ⟨consistent_new, ⟨rfl, fun call hcall => ?_⟩, fun h => ?_⟩
  · obtain rfl := List.mem_singleton.mp hcall
    exact .inl rfl
  · exact absurd h.labels (by decide)

end Unimatrix.Vector.Compaction
