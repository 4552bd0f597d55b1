import Unimatrix.Lib.Tally
import Unimatrix.Usage.Recording

/-!
# The counters are a tally of the votes

`Tallied calls s`: every row's counters say who last found the entry helpful, who last did not, and the
sum of the weights of the agents' first accesses.

* `Usage.bump`: what one update does to the counters of a row, and `bump_iterate` what it does when its id
  is repeated: a vote is counted once for each repetition.
* **`tally_step`**: a call whose vote is `Fair` keeps the tally once its write has run.
* **`votes_tallied_iff`**: over calls each of whose writes runs before the next call, the counters are the
  tally throughout exactly when every call is fair; and with writes in call order, fair calls leave the
  tally whenever no write is left to run.
-/

namespace Unimatrix

open Txn Tally

/-! ## Counters -/

/-- The usage counters of a row. -/
@[ext]
structure Counts where
  access : Nat
  helpful : Nat
  unhelpful : Nat
  deriving DecidableEq, Repr

/-- The usage counters of a row. -/
def EntryRow.counts (row : EntryRow) : Counts := ⟨row.accessCount, row.helpfulCount, row.unhelpfulCount⟩

namespace Store

/-- One update, on the counters of the row `id`. -/
def Usage.bump (u : Usage) (id : Nat) (c : Counts) : Counts where
  access := if id ∈ u.accessIds then c.access + 1 else c.access
  helpful :=
    if id ∈ u.decrementHelpfulIds then c.helpful - 1
    else if id ∈ u.helpfulIds then c.helpful + 1 else c.helpful
  unhelpful :=
    if id ∈ u.decrementUnhelpfulIds then c.unhelpful - 1
    else if id ∈ u.unhelpfulIds then c.unhelpful + 1 else c.unhelpful

theorem Usage.apply_counts (u : Usage) (id now : Nat) (row : EntryRow) :
    (u.apply id now row).counts = u.bump id row.counts := rfl

/-- **A repeated id repeats the update.** -/
theorem Usage.bump_iterate (u : Usage) (id : Nat) (n : Nat) (c : Counts) :
    (u.bump id)^[n] c =
      { access := if id ∈ u.accessIds then c.access + n else c.access
        helpful := if id ∈ u.decrementHelpfulIds then c.helpful - n
          else if id ∈ u.helpfulIds then c.helpful + n else c.helpful
        unhelpful := if id ∈ u.decrementUnhelpfulIds then c.unhelpful - n
          else if id ∈ u.unhelpfulIds then c.unhelpful + n else c.unhelpful } := by
  induction n with
  | zero => ext <;> simp
  | succ n ih =>
    rw [Function.iterate_succ_apply', ih]
    ext
    · simp only [Usage.bump]
      split <;> omega
    · simp only [Usage.bump]
      split
      · omega
      · split <;> omega
    · simp only [Usage.bump]
      split
      · omega
      · split <;> omega

/-! ## A write -/

/-- What the loop body of `record_usage` leaves when nothing fails. -/
def usageStep (u : Usage) (confidenceFn : EntryRecord → Nat → UInt64) (now : Nat) (s : Store)
    (id : Nat) : Store :=
  match s.find id with
  | none => s
  | some _ =>
    let s' := s.setRow id (u.apply id now)
    match s'.find id with
    | none => s'
    | some record => s'.setRow id fun row => { row with confidence := confidenceFn record now }

theorem lookup_setRow (s : Store) (id : Nat) (f : EntryRow → EntryRow) (i : Nat) :
    (s.setRow id f).entries.lookup i =
      if i = id then (s.entries.lookup id).map f else s.entries.lookup i := by
  cases hl : s.entries.lookup id with
  | none =>
    have hsame : s.setRow id f = s := by
      unfold setRow
      rw [hl]
    rw [hsame]
    split
    · rename_i heq
      rw [heq, hl]
      rfl
    · rfl
  | some row =>
    rw [setRow_of_some hl, HashMap.lookup_insert_eq]
    rfl

theorem lookup_setRow_self {s : Store} {id : Nat} {row : EntryRow} (f : EntryRow → EntryRow)
    (hl : s.entries.lookup id = some row) : (s.setRow id f).entries.lookup id = some (f row) := by
  rw [lookup_setRow, if_pos rfl, hl]
  rfl

/-- The counters after one round. -/
theorem usageStep_counts (u : Usage) (confidenceFn : EntryRecord → Nat → UInt64) (now : Nat)
    (s : Store) (id i : Nat) :
    ((usageStep u confidenceFn now s id).entries.lookup i).map EntryRow.counts =
      ((s.entries.lookup i).map EntryRow.counts).map fun c => if i = id then u.bump id c else c := by
  unfold usageStep find
  cases hl : s.entries.lookup id with
  | none =>
    simp only [Option.map_none]
    by_cases hi : i = id
    · rw [hi, hl]
      rfl
    · simp [hi, Function.comp_def]
  | some row =>
    have hnew := lookup_setRow_self (u.apply id now) hl
    simp only [Option.map_some, hnew]
    rw [lookup_setRow]
    by_cases hi : i = id
    · subst hi
      rw [if_pos rfl, hnew, hl]
      simp only [Option.map_some, if_true]
      exact congrArg some (u.apply_counts i now row)
    · simp [hi, lookup_setRow, Function.comp_def]

theorem recordUsageEntry_passes {confidenceFn : EntryRecord → Nat → UInt64}
    (hf : ∀ record now, isNan (confidenceFn record now) = false) (u : Usage) (now id : Nat)
    (s : Store) : Passes (recordUsageEntry u (some confidenceFn) now id) s PUnit.unit
      (usageStep u confidenceFn now s id) := by
  refine Passes.bind (Passes.query _ s) ?_
  unfold usageStep find
  cases hl : s.entries.lookup id with
  | none => exact Passes.ret s _
  | some row =>
    have hnew := lookup_setRow_self (u.apply id now) hl
    simp only [Option.isSome_some, if_true, Option.map_some, hnew]
    refine Passes.bind (Passes.update _ s) ?_
    refine Passes.bind (Passes.bind (Passes.query _ _) (Passes.okOr _ hnew)) ?_
    refine Passes.bind (Passes.query _ _) ?_
    refine Passes.bind (Passes.reject _ ?_) (Passes.update _ _)
    rw [hf]
    rfl

end Store

namespace UsageWrite

/-- What a write does to the counters of the row `id`. -/
def bump (w : UsageWrite) (id : Nat) (c : Counts) : Counts :=
  (w.usage.bump id)^[w.allIds.count id] c

end UsageWrite

namespace UsageService

open Store in
theorem foldl_usageStep_counts (u : Usage) (confidenceFn : EntryRecord → Nat → UInt64) (now i : Nat) :
    ∀ (ids : List Nat) (s : Store),
      ((ids.foldl (usageStep u confidenceFn now) s).entries.lookup i).map EntryRow.counts =
        ((s.entries.lookup i).map EntryRow.counts).map (u.bump i)^[ids.count i]
  | [], s => by simp
  | id :: ids, s => by
    rw [List.foldl_cons, foldl_usageStep_counts u confidenceFn now i ids, usageStep_counts,
      Option.map_map, List.count_cons]
    congr 1
    funext c
    by_cases hi : i = id
    · simp [hi, Function.iterate_succ_apply]
    · simp [hi, Ne.symm hi]

/-- **An undisturbed write bumps the counters of every row**, and rows neither come nor go. -/
theorem runWrite_counts {confidenceFn : EntryRecord → Nat → UInt64}
    (hf : ∀ record now, isNan (confidenceFn record now) = false) (w : UsageWrite) (now : Nat)
    (s : Store) (id : Nat) :
    ((runWrite confidenceFn w now none s).entries.lookup id).map EntryRow.counts =
      ((s.entries.lookup id).map EntryRow.counts).map (w.bump id) := by
  unfold runWrite Store.recordUsage
  split
  · rename_i hempty
    rw [List.isEmpty_iff] at hempty
    have hid : w.bump id = fun c => c := by
      funext c
      simp [UsageWrite.bump, hempty]
    rw [hid]
    simp [Function.comp_def]
  · have hpass := Passes.forM (Store.recordUsageEntry_passes hf w.usage now) w.allIds s
    rw [hpass.transaction, foldl_usageStep_counts]
    rfl

end UsageService

/-! ## What a call writes -/

/-- The lists after all actions of a vote. -/
theorem foldl_pushVote (v : Bool) (i : Nat) :
    ∀ (acts : List (Nat × VoteAction)) (u : Store.Usage),
      (acts.foldl (pushVote v) u).accessIds = u.accessIds ∧
      (i ∈ (acts.foldl (pushVote v) u).helpfulIds ↔
        i ∈ u.helpfulIds ∨ v = true ∧ ∃ act, (i, act) ∈ acts ∧ act ≠ .noOp) ∧
      (i ∈ (acts.foldl (pushVote v) u).unhelpfulIds ↔
        i ∈ u.unhelpfulIds ∨ v = false ∧ ∃ act, (i, act) ∈ acts ∧ act ≠ .noOp) ∧
      (i ∈ (acts.foldl (pushVote v) u).decrementHelpfulIds ↔
        i ∈ u.decrementHelpfulIds ∨ v = false ∧ (i, .correctedVote) ∈ acts) ∧
      (i ∈ (acts.foldl (pushVote v) u).decrementUnhelpfulIds ↔
        i ∈ u.decrementUnhelpfulIds ∨ v = true ∧ (i, .correctedVote) ∈ acts)
  | [], u => by simp
  | (j, act) :: acts, u => by
    obtain ⟨ha, hh, hu, hdh, hdu⟩ := foldl_pushVote v i acts (pushVote v u (j, act))
    have hex : (∃ act', (i, act') ∈ (j, act) :: acts ∧ act' ≠ .noOp) ↔
        (i = j ∧ act ≠ .noOp) ∨ ∃ act', (i, act') ∈ acts ∧ act' ≠ .noOp := by
      simp only [List.mem_cons, Prod.mk.injEq]
      constructor
      · rintro ⟨act', ⟨rfl, rfl⟩ | h, hne⟩
        · exact .inl ⟨rfl, hne⟩
        · exact .inr ⟨act', h, hne⟩
      · rintro (⟨rfl, hne⟩ | ⟨act', h, hne⟩)
        · exact ⟨act, .inl ⟨rfl, rfl⟩, hne⟩
        · exact ⟨act', .inr h, hne⟩
    rw [List.foldl_cons, ha, hh, hu, hdh, hdu, hex, List.mem_cons, Prod.mk.injEq]
    cases act <;> cases v <;> simp [pushVote, or_assoc]

theorem voteAction_ne_noOp {v : Bool} {prior : Option Bool} :
    voteAction v prior ≠ .noOp ↔ prior ≠ some v := by
  cases prior with
  | none => simp [voteAction]
  | some w => by_cases h : w = v <;> simp [voteAction, h]

theorem voteAction_eq_corrected {v : Bool} {prior : Option Bool} :
    .correctedVote = voteAction v prior ↔ prior = some !v := by
  cases prior with
  | none => simp [voteAction]
  | some w => cases w <;> cases v <;> simp [voteAction]

/-- **The lists of a vote.** -/
theorem voteLists_spec (d : UsageDedup) (c : Access) (accessIds : List Nat)
    (hnodup : c.entryIds.Nodup) {v : Bool} (hv : c.helpful = some v) {i : Nat}
    (hi : i ∈ c.entryIds) :
    (voteLists d c accessIds).1.accessIds = accessIds ∧
    (i ∈ (voteLists d c accessIds).1.helpfulIds ↔
      v = true ∧ d.voteRecorded.lookup (c.agent, i) ≠ some true) ∧
    (i ∈ (voteLists d c accessIds).1.unhelpfulIds ↔
      v = false ∧ d.voteRecorded.lookup (c.agent, i) ≠ some false) ∧
    (i ∈ (voteLists d c accessIds).1.decrementHelpfulIds ↔
      v = false ∧ d.voteRecorded.lookup (c.agent, i) = some true) ∧
    (i ∈ (voteLists d c accessIds).1.decrementUnhelpfulIds ↔
      v = true ∧ d.voteRecorded.lookup (c.agent, i) = some false) := by
  obtain ⟨hact, -⟩ := UsageDedup.checkVotesLoop_spec c.agent v c.entryIds d.voteRecorded hnodup
  obtain ⟨ha, hh, hu, hdh, hdu⟩ := foldl_pushVote v i
    (d.checkVotes c.agent c.entryIds v).1 ⟨accessIds, [], [], [], []⟩
  have hmem : ∀ act, (i, act) ∈ (d.checkVotes c.agent c.entryIds v).1 ↔
      act = voteAction v (d.voteRecorded.lookup (c.agent, i)) :=
    fun act => (hact i act).trans (and_iff_right hi)
  have hex : (∃ act, (i, act) ∈ (d.checkVotes c.agent c.entryIds v).1 ∧ act ≠ .noOp) ↔
      d.voteRecorded.lookup (c.agent, i) ≠ some v := by
    simp only [hmem, exists_eq_left, voteAction_ne_noOp]
  unfold voteLists
  rw [hv]
  simp only
  rw [ha, hh, hu, hdh, hdu, hex, hmem, voteAction_eq_corrected]
  cases v <;> simp

theorem count_multiplied {accessWeight : UInt32} (hw : 1 ≤ accessWeight) {ids : List Nat}
    (hnodup : ids.Nodup) (i : Nat) :
    (multiplied accessWeight ids).count i = if i ∈ ids then accessWeight.toNat else 0 := by
  have hcount : ids.count i = if i ∈ ids then 1 else 0 := by
    split
    · rename_i h
      exact List.count_eq_one_of_mem hnodup h
    · rename_i h
      exact List.count_eq_zero_of_not_mem h
  unfold multiplied
  split
  · rename_i hle
    have hone : accessWeight.toNat = 1 := by
      have h1 := UInt32.le_iff_toNat_le.mp hw
      have h2 := UInt32.le_iff_toNat_le.mp hle
      simp at h1 h2
      omega
    rw [hcount, hone]
  · have hflat : ∀ l : List Nat,
        (l.flatMap fun id => List.replicate accessWeight.toNat id).count i =
          l.count i * accessWeight.toNat := by
      intro l
      induction l with
      | nil => simp
      | cons a l ih =>
        rw [List.flatMap_cons, List.count_append, ih, List.count_replicate, List.count_cons]
        by_cases h : a = i
        · simp [h, Nat.add_mul, Nat.add_comm]
        · simp [h]
    rw [hflat, hcount]
    split <;> simp

theorem mem_multiplied {accessWeight : UInt32} {ids : List Nat} {i : Nat} :
    i ∈ multiplied accessWeight ids ↔ i ∈ ids := by
  unfold multiplied
  split
  · rfl
  · rename_i hlt
    have hne : accessWeight.toNat ≠ 0 := by
      intro h0
      refine hlt (UInt32.le_iff_toNat_le.mpr ?_)
      rw [h0]
      exact Nat.zero_le _
    simp [hne]

/-! ## The tally -/

/-- The votes on an entry, oldest first. -/
def ballots (calls : List Access) (id : Nat) : List (String × Bool) :=
  calls.filterMap fun c => if id ∈ c.entryIds then c.helpful.map fun v => (c.agent, v) else none

/-- The accesses of an entry, oldest first. -/
def accesses (calls : List Access) (id : Nat) : List (String × Nat) :=
  calls.filterMap fun c =>
    if id ∈ c.entryIds then some (c.agent, c.accessWeight.toNat) else none

/-- The counters an entry should have. -/
def tallyOf (calls : List Access) (id : Nat) : Counts where
  access := firstSum (accesses calls id)
  helpful := (supporters (ballots calls id) true).card
  unhelpful := (supporters (ballots calls id) false).card

/-- Every row of the store has the counters it should have. -/
def Tallied (calls : List Access) (s : Store) : Prop :=
  ∀ id row, s.entries.lookup id = some row → row.counts = tallyOf calls id

/-- The tracker remembers the accesses and the last votes. -/
structure UsageDedup.Remembers (d : UsageDedup) (calls : List Access) : Prop where
  access : ∀ a id, (a, id) ∈ d.accessCounted ↔ (first (accesses calls id) a).isSome
  vote : ∀ a id, d.voteRecorded.lookup (a, id) = latest (ballots calls id) a

/-- The calls there can be: distinct ids, and a weight. -/
structure Access.Admitted (c : Access) : Prop where
  distinct : c.entryIds.Nodup
  weighted : 1 ≤ c.accessWeight

/-- A call whose vote is counted once: it has no vote or weight 1, or on every listed entry of the
store it repeats the agent's last vote. -/
def Access.Fair (calls : List Access) (s : Store) (c : Access) : Prop :=
  ∀ v, c.helpful = some v → c.accessWeight = 1 ∨
    ∀ id ∈ c.entryIds, (s.entries.lookup id).isSome → latest (ballots calls id) c.agent = some v

theorem ballots_concat (calls : List Access) (c : Access) (id : Nat) :
    ballots (calls ++ [c]) id = ballots calls id ++
      (if id ∈ c.entryIds then c.helpful.map fun v => (c.agent, v) else none).toList := by
  unfold ballots
  rw [List.filterMap_append]
  cases h : if id ∈ c.entryIds then c.helpful.map fun v => (c.agent, v) else none <;> simp [h]

theorem accesses_concat (calls : List Access) (c : Access) (id : Nat) :
    accesses (calls ++ [c]) id = accesses calls id ++
      (if id ∈ c.entryIds then some (c.agent, c.accessWeight.toNat) else none).toList := by
  unfold accesses
  rw [List.filterMap_append]
  cases h : if id ∈ c.entryIds then some (c.agent, c.accessWeight.toNat) else none <;> simp [h]

/-- An entry that is not listed keeps its tally. -/
theorem tallyOf_concat_other {calls : List Access} {c : Access} {id : Nat} (h : id ∉ c.entryIds) :
    tallyOf (calls ++ [c]) id = tallyOf calls id := by
  unfold tallyOf
  rw [ballots_concat, accesses_concat, if_neg h, if_neg h]
  simp

theorem filterAccess_snd (d : UsageDedup) (c : Access) :
    (d.filterAccess c.agent c.entryIds).2.voteRecorded = d.voteRecorded := rfl

/-- A call counts the agent's access of every listed entry. -/
theorem recordAccess_accessCounted (d : UsageDedup) (c : Access) (a : String) (id : Nat) :
    (a, id) ∈ (recordAccess d c).2.accessCounted ↔
      (a, id) ∈ d.accessCounted ∨ a = c.agent ∧ id ∈ c.entryIds := by
  unfold recordAccess
  split
  · rename_i hempty
    simp [List.isEmpty_iff.mp hempty]
  · obtain ⟨-, hfilter⟩ := UsageDedup.filterAccessLoop_spec c.agent c.entryIds d.accessCounted
    rw [← hfilter a id]
    unfold recordMcpUsage voteLists
    cases c.helpful <;> rfl

/-- A call with a vote records it for every listed entry. -/
theorem recordAccess_voteRecorded (d : UsageDedup) {c : Access} (hc : c.Admitted) (a : String)
    (id : Nat) : (recordAccess d c).2.voteRecorded.lookup (a, id) =
      c.helpful.elim (d.voteRecorded.lookup (a, id)) fun v =>
        if a = c.agent ∧ id ∈ c.entryIds then some v else d.voteRecorded.lookup (a, id) := by
  unfold recordAccess
  split
  · rename_i hempty
    cases c.helpful <;> simp [List.isEmpty_iff.mp hempty]
  · unfold recordMcpUsage voteLists
    cases c.helpful with
    | none => rfl
    | some v =>
      obtain ⟨-, hvotes⟩ :=
        UsageDedup.checkVotesLoop_spec c.agent v c.entryIds d.voteRecorded hc.distinct
      exact hvotes a id

/-- **A call is remembered.** -/
theorem recordAccess_remembers {d : UsageDedup} {calls : List Access} (h : d.Remembers calls)
    {c : Access} (hc : c.Admitted) : (recordAccess d c).2.Remembers (calls ++ [c]) := by
  refine ⟨fun a id => ?_, fun a id => ?_⟩
  · rw [recordAccess_accessCounted, h.access, accesses_concat]
    by_cases hid : id ∈ c.entryIds
    · rw [if_pos hid, Option.toList_some, first_concat]
      split
      · rename_i hsome
        simp [hsome]
      · rename_i hnone
        by_cases ha : c.agent = a
        · simp [hid, ha]
        · simp [hnone, ha, Ne.symm ha]
    · simp [hid]
  · rw [recordAccess_voteRecorded d hc, ballots_concat, h.vote]
    by_cases hid : id ∈ c.entryIds
    · rw [if_pos hid]
      cases c.helpful with
      | none => simp
      | some v =>
        rw [Option.map_some, Option.toList_some, latest_concat]
        by_cases ha : c.agent = a
        · simp [hid, ha]
        · simp [ha, Ne.symm ha]
    · cases c.helpful <;> simp [hid]

/-! ### One call -/

/-- Without a vote only accesses are written. -/
theorem recordMcpUsage_usage_of_none (d : UsageDedup) {c : Access} (hh : c.helpful = none) :
    (recordMcpUsage d c).1.usage =
      ⟨multiplied c.accessWeight (d.filterAccess c.agent c.entryIds).1, [], [], [], []⟩ := by
  unfold recordMcpUsage voteLists
  simp only [hh]

/-- The access of a listed entry is written unless it was counted. -/
theorem mem_multiplied_filterAccess (d : UsageDedup) (c : Access) {id : Nat} (hid : id ∈ c.entryIds) :
    id ∈ multiplied c.accessWeight (d.filterAccess c.agent c.entryIds).1 ↔ (c.agent, id) ∉ d.accessCounted := by
  obtain ⟨hfilter, -⟩ := UsageDedup.filterAccessLoop_spec c.agent c.entryIds d.accessCounted
  rw [mem_multiplied]
  exact (hfilter id).trans (and_iff_right hid)

/-- What the write of a call does to the counters of a row. -/
theorem recordMcpUsage_bump {d : UsageDedup} {c : Access} (hc : c.Admitted) (id : Nat)
    (n : Counts) :
    (recordMcpUsage d c).1.bump id n = if id ∈ c.entryIds then
      { access := if (c.agent, id) ∈ d.accessCounted then n.access
          else n.access + c.accessWeight.toNat
        helpful := match c.helpful with
          | none => n.helpful
          | some true => if d.voteRecorded.lookup (c.agent, id) = some true then n.helpful
              else n.helpful + c.accessWeight.toNat
          | some false => if d.voteRecorded.lookup (c.agent, id) = some true
              then n.helpful - c.accessWeight.toNat else n.helpful
        unhelpful := match c.helpful with
          | none => n.unhelpful
          | some false => if d.voteRecorded.lookup (c.agent, id) = some false then n.unhelpful
              else n.unhelpful + c.accessWeight.toNat
          | some true => if d.voteRecorded.lookup (c.agent, id) = some false
              then n.unhelpful - c.accessWeight.toNat else n.unhelpful }
      else n := by
  have hcount : (recordMcpUsage d c).1.allIds.count id =
      if id ∈ c.entryIds then c.accessWeight.toNat else 0 :=
    count_multiplied hc.weighted hc.distinct id
  unfold UsageWrite.bump
  rw [Store.Usage.bump_iterate, hcount]
  by_cases hid : id ∈ c.entryIds
  · rw [if_pos hid, if_pos hid]
    have hacc := mem_multiplied_filterAccess d c hid
    cases hh : c.helpful with
    | none =>
      rw [recordMcpUsage_usage_of_none d hh]
      ext
      · simp only [hacc]
        split <;> simp_all
      · simp
      · simp
    | some v =>
      obtain ⟨ha, hhelp, hunhelp, hdh, hdu⟩ := voteLists_spec
        (d.filterAccess c.agent c.entryIds).2 c
        (multiplied c.accessWeight (d.filterAccess c.agent c.entryIds).1) hc.distinct hh hid
      rw [filterAccess_snd] at hhelp hunhelp hdh hdu
      have hu : (recordMcpUsage d c).1.usage = (voteLists (d.filterAccess c.agent c.entryIds).2 c
          (multiplied c.accessWeight (d.filterAccess c.agent c.entryIds).1)).1 := rfl
      rw [hu]
      ext
      · simp only [ha, hacc]
        split <;> simp_all
      · simp only [hdh, hhelp]
        cases v <;> simp
      · simp only [hdu, hunhelp]
        cases v <;> simp
  · rw [if_neg hid, if_neg hid]
    ext <;> simp

/-- The tally of one side after a vote. -/
theorem card_supporters_vote (history : List (String × Bool)) (a : String) (v w : Bool) :
    (supporters (history ++ [(a, v)]) w).card =
      if w = v then
        if latest history a = some v then (supporters history w).card
        else (supporters history w).card + 1
      else if latest history a = some w then (supporters history w).card - 1
      else (supporters history w).card := by
  by_cases hwv : w = v
  · rw [if_pos hwv, hwv]
    by_cases h : latest history a = some v
    · rw [if_pos h, supporters_concat_again h]
    · rw [if_neg h, card_supporters_gain h]
  · rw [if_neg hwv]
    by_cases h : latest history a = some w
    · rw [if_pos h]
      have hlose := card_supporters_lose hwv h
      omega
    · rw [if_neg h, supporters_concat_other hwv h]

/-- The tally after a call that lists the entry. -/
theorem tallyOf_concat {calls : List Access} {c : Access} {id : Nat} (hid : id ∈ c.entryIds) :
    tallyOf (calls ++ [c]) id =
      { access := if (first (accesses calls id) c.agent).isSome then firstSum (accesses calls id)
          else firstSum (accesses calls id) + c.accessWeight.toNat
        helpful := match c.helpful with
          | none => (tallyOf calls id).helpful
          | some v => (supporters (ballots calls id ++ [(c.agent, v)]) true).card
        unhelpful := match c.helpful with
          | none => (tallyOf calls id).unhelpful
          | some v => (supporters (ballots calls id ++ [(c.agent, v)]) false).card } := by
  unfold tallyOf
  rw [ballots_concat, accesses_concat, if_pos hid, if_pos hid, Option.toList_some, firstSum_concat]
  cases c.helpful <;> simp

/-- **One call, one row: the counters are the tally again exactly when the vote is counted once.** -/
theorem bump_tally_iff {d : UsageDedup} {calls : List Access} (h : d.Remembers calls) {c : Access}
    (hc : c.Admitted) (id : Nat) :
    (recordMcpUsage d c).1.bump id (tallyOf calls id) = tallyOf (calls ++ [c]) id ↔
      (id ∈ c.entryIds → ∀ v, c.helpful = some v →
        c.accessWeight = 1 ∨ latest (ballots calls id) c.agent = some v) := by
  have hone : c.accessWeight = 1 ↔ c.accessWeight.toNat = 1 := UInt32.toNat_inj.symm
  have hpos : 1 ≤ c.accessWeight.toNat := UInt32.le_iff_toNat_le.mp hc.weighted
  rw [recordMcpUsage_bump hc]
  by_cases hid : id ∈ c.entryIds
  · rw [if_pos hid, tallyOf_concat hid, Counts.mk.injEq, hone]
    have hacc : (if (c.agent, id) ∈ d.accessCounted then (tallyOf calls id).access
          else (tallyOf calls id).access + c.accessWeight.toNat) =
        if (first (accesses calls id) c.agent).isSome then firstSum (accesses calls id)
          else firstSum (accesses calls id) + c.accessWeight.toNat := by
      by_cases hs : (first (accesses calls id) c.agent).isSome
      · rw [if_pos ((h.access c.agent id).mpr hs), if_pos hs]
        rfl
      · rw [if_neg fun hmem => hs ((h.access c.agent id).mp hmem), if_neg hs]
        rfl
    rw [h.vote c.agent id]
    simp only [hacc, true_and, hid, forall_const]
    cases c.helpful with
    | none => simp
    | some v =>
      have hsup : ∀ w, latest (ballots calls id) c.agent = some w →
          1 ≤ (supporters (ballots calls id) w).card :=
        fun w hw => Finset.card_pos.mpr ⟨c.agent, mem_supporters.mpr hw⟩
      simp only [card_supporters_vote, tallyOf, Option.some.injEq, forall_eq']
      cases v with
      | true =>
        by_cases ht : latest (ballots calls id) c.agent = some true
        · simp [ht]
        · by_cases hf : latest (ballots calls id) c.agent = some false
          · have := hsup false hf
            simp [hf]
            omega
          · simp [ht, hf]
      | false =>
        by_cases hf : latest (ballots calls id) c.agent = some false
        · simp [hf]
        · by_cases ht : latest (ballots calls id) c.agent = some true
          · have := hsup true ht
            simp [ht]
            omega
          · simp [ht, hf]
  · rw [if_neg hid, tallyOf_concat_other hid]
    simp [hid]

/-! ## Runs -/

/-- The call of a step. -/
def UsageAct.call? : UsageAct → Option Access
  | .call c => some c
  | .write _ _ _ => none

/-- A step that runs the oldest write, with no failure. -/
def UsageAct.Orderly : UsageAct → Prop
  | .call _ => True
  | .write k _ fault => k = 0 ∧ fault = none

namespace UsageService

/-- The calls of a run, oldest first. -/
def calls (acts : List UsageAct) : List Access := acts.filterMap UsageAct.call?

/-- The calls, each with the run of its write right after it. -/
def sequential (cs : List (Access × Nat)) : List UsageAct :=
  cs.flatMap fun c => [.call c.1, .write 0 c.2 none]

/-- Where the counters of a row stand once the writes to come have run. -/
def owed (pending : List UsageWrite) (id : Nat) (n : Counts) : Counts :=
  pending.foldl (fun n w => w.bump id n) n

theorem run_concat (f : EntryRecord → Nat → UInt64) (s₀ : Store) (acts : List UsageAct)
    (a : UsageAct) : run f s₀ (acts ++ [a]) = (run f s₀ acts).step f a := by
  unfold run
  rw [List.foldl_append]
  rfl

theorem calls_concat (acts : List UsageAct) (a : UsageAct) :
    calls (acts ++ [a]) = calls acts ++ a.call?.toList := by
  unfold calls
  rw [List.filterMap_append]
  cases h : a.call? <;> simp [h]

/-- The tracker remembers, the rows are those of the start, and they will have their counters. -/
structure OnTrack (s₀ : Store) (calls : List Access) (s : UsageService) : Prop where
  remembers : s.dedup.Remembers calls
  rows : ∀ id, (s.store.entries.lookup id).isSome = (s₀.entries.lookup id).isSome
  owed : ∀ id row, s.store.entries.lookup id = some row →
    owed s.pending id row.counts = tallyOf calls id

theorem recordAccess_owed {d : UsageDedup} {calls : List Access} (h : d.Remembers calls)
    {c : Access} (hc : c.Admitted) {s₀ : Store} (hfair : c.Fair calls s₀) {id : Nat}
    (hrow : (s₀.entries.lookup id).isSome) :
    UsageService.owed (recordAccess d c).1.toList id (tallyOf calls id) =
      tallyOf (calls ++ [c]) id := by
  unfold recordAccess
  split
  · rename_i hempty
    have hid : id ∉ c.entryIds := by simp [List.isEmpty_iff.mp hempty]
    rw [tallyOf_concat_other hid]
    rfl
  · refine (bump_tally_iff h hc id).mpr fun hid v hv => ?_
    rcases hfair v hv with hw | hall
    · exact .inl hw
    · exact .inr (hall id hid hrow)

theorem OnTrack.call {s₀ : Store} {calls : List Access} {s : UsageService}
    (h : OnTrack s₀ calls s) {c : Access} (hc : c.Admitted) (hfair : c.Fair calls s₀)
    (f : EntryRecord → Nat → UInt64) : OnTrack s₀ (calls ++ [c]) (s.step f (.call c)) where
  remembers := recordAccess_remembers h.remembers hc
  rows := h.rows
  owed := by
    intro id row hl
    have hrow : (s₀.entries.lookup id).isSome := by
      rw [← h.rows id, show s.store.entries.lookup id = some row from hl]
      rfl
    have hpending : (s.step f (.call c)).pending =
        s.pending ++ (recordAccess s.dedup c).1.toList := rfl
    rw [hpending, UsageService.owed, List.foldl_append]
    have howed := h.owed id row hl
    unfold UsageService.owed at howed
    rw [howed]
    exact recordAccess_owed h.remembers hc hfair hrow

theorem OnTrack.write {s₀ : Store} {calls : List Access} {s : UsageService}
    (h : OnTrack s₀ calls s) {f : EntryRecord → Nat → UInt64}
    (hf : ∀ record now, isNan (f record now) = false) (now : Nat) :
    OnTrack s₀ calls (s.step f (.write 0 now none)) := by
  cases hp : s.pending with
  | nil =>
    have hsame : s.step f (.write 0 now none) = s := by
      unfold step
      simp only [hp, List.getElem?_nil]
    rw [hsame]
    exact h
  | cons w rest =>
    have hstep : s.step f (.write 0 now none) =
        { s with pending := rest, store := runWrite f w now none s.store } := by
      unfold step
      simp only [hp, List.getElem?_cons_zero, List.eraseIdx_cons_zero]
    rw [hstep]
    have hcounts := runWrite_counts hf w now s.store
    refine ⟨h.remembers, fun id => ?_, fun id row hl => ?_⟩
    · rw [← h.rows id]
      have := congrArg Option.isSome (hcounts id)
      simpa using this
    · have hbump := hcounts id
      rw [show (runWrite f w now none s.store).entries.lookup id = some row from hl] at hbump
      cases hrow : s.store.entries.lookup id with
      | none =>
        rw [hrow] at hbump
        cases hbump
      | some old =>
        rw [hrow] at hbump
        have howed := h.owed id old hrow
        rw [hp] at howed
        rw [show row.counts = w.bump id old.counts from Option.some.inj hbump]
        exact howed

/-- **Fair calls stay on track**, whatever the interleaving of calls and orderly writes. -/
theorem run_onTrack {f : EntryRecord → Nat → UInt64}
    (hf : ∀ record now, isNan (f record now) = false) {s₀ : Store} (hzero : Tallied [] s₀)
    {acts : List UsageAct} (hadm : ∀ c ∈ calls acts, c.Admitted) (hord : ∀ a ∈ acts, a.Orderly)
    (hfair : ∀ before c after, acts = before ++ .call c :: after → c.Fair (calls before) s₀) :
    OnTrack s₀ (calls acts) (run f s₀ acts) := by
  induction acts using List.reverseRecOn with
  | nil =>
    refine ⟨⟨fun a id => ?_, fun a id => rfl⟩, fun id => rfl, fun id row hl => hzero id row hl⟩
    exact iff_of_false (Finset.notMem_empty _) (by simp [calls, accesses, first])
  | append_singleton acts a ih =>
    have hadm' : ∀ c ∈ calls acts, c.Admitted := fun c hc => hadm c (by
      rw [calls_concat]
      exact List.mem_append_left _ hc)
    have htrack := ih hadm' (fun x hx => hord x (List.mem_append_left _ hx))
      fun before c after heq => hfair before c (after ++ [a]) (by rw [heq]; simp)
    rw [run_concat, calls_concat]
    cases a with
    | call c =>
      have hc : c.Admitted := hadm c (by rw [calls_concat]; simp [UsageAct.call?])
      exact htrack.call hc (hfair acts c [] rfl) f
    | write k now fault =>
      obtain ⟨rfl, rfl⟩ : k = 0 ∧ fault = none := hord (.write k now fault) (by simp)
      simpa [UsageAct.call?] using htrack.write hf now

theorem sequential_concat (cs : List (Access × Nat)) (c : Access × Nat) :
    sequential (cs ++ [c]) = (sequential cs ++ [.call c.1]) ++ [.write 0 c.2 none] := by
  unfold sequential
  simp

theorem calls_sequential (cs : List (Access × Nat)) : calls (sequential cs) = cs.map Prod.fst := by
  induction cs using List.reverseRecOn with
  | nil => rfl
  | append_singleton cs c ih =>
    rw [sequential_concat, calls_concat, calls_concat, ih]
    simp [UsageAct.call?]

/-- Every call of `sequential` stands between the pairs of the calls around it. -/
theorem sequential_split : ∀ {cs : List (Access × Nat)} {before : List UsageAct} {c : Access}
    {after : List UsageAct}, sequential cs = before ++ .call c :: after →
      ∃ p now rest, cs = p ++ (c, now) :: rest ∧ before = sequential p
  | [], before, c, after, h => by
    have hlen := congrArg List.length h
    simp [sequential] at hlen
  | x :: xs, before, c, after, h => by
    have hcons : sequential (x :: xs) =
        .call x.1 :: .write 0 x.2 none :: sequential xs := by simp [sequential]
    rw [hcons] at h
    match before, h with
    | [], h =>
      simp only [List.nil_append, List.cons.injEq, UsageAct.call.injEq] at h
      exact ⟨[], x.2, xs, by rw [← h.1]; rfl, rfl⟩
    | [_], h => simp at h
    | a :: b :: before, h =>
      simp only [List.cons_append, List.cons.injEq] at h
      obtain ⟨rfl, rfl, h⟩ := h
      obtain ⟨p, now, rest, rfl, rfl⟩ := sequential_split h
      exact ⟨x :: p, now, rest, rfl, by simp [sequential]⟩

/-- The state after one more call and its write. -/
theorem run_sequential_concat (f : EntryRecord → Nat → UInt64) (s₀ : Store)
    (cs : List (Access × Nat)) (c : Access × Nat) :
    run f s₀ (sequential (cs ++ [c])) =
      ((run f s₀ (sequential cs)).step f (.call c.1)).step f (.write 0 c.2 none) := by
  rw [sequential_concat, run_concat, run_concat]

theorem sequential_pending (f : EntryRecord → Nat → UInt64) (s₀ : Store)
    (cs : List (Access × Nat)) : (run f s₀ (sequential cs)).pending = [] := by
  induction cs using List.reverseRecOn with
  | nil => rfl
  | append_singleton cs c ih =>
    rw [run_sequential_concat]
    simp only [step, ih, List.nil_append]
    cases (recordAccess (run f s₀ (sequential cs)).dedup c.1).1 with
    | none => rfl
    | some w => rfl

theorem sequential_orderly (cs : List (Access × Nat)) : ∀ a ∈ sequential cs, a.Orderly := by
  intro a ha
  obtain ⟨c, -, hc⟩ := List.mem_flatMap.mp ha
  rcases List.mem_cons.mp hc with rfl | hc
  · trivial
  · obtain rfl := List.mem_singleton.mp hc
    exact ⟨rfl, rfl⟩

section Exact

variable {f : EntryRecord → Nat → UInt64} (hf : ∀ record now, isNan (f record now) = false)
  {s₀ : Store} (hzero : Tallied [] s₀)

include hf hzero in
/-- Fair calls, one after the other, stay on track. -/
theorem sequential_onTrack {cs : List (Access × Nat)} (hadm : ∀ c ∈ cs, c.1.Admitted)
    (hfair : ∀ p c, p ++ [c] <+: cs → c.1.Fair (p.map Prod.fst) s₀) :
    OnTrack s₀ (cs.map Prod.fst) (run f s₀ (sequential cs)) := by
  rw [← calls_sequential]
  refine run_onTrack hf hzero ?_ (sequential_orderly cs) fun before c after heq => ?_
  · intro c hc
    rw [calls_sequential] at hc
    obtain ⟨x, hx, rfl⟩ := List.mem_map.mp hc
    exact hadm x hx
  · obtain ⟨p, now, rest, rfl, rfl⟩ := sequential_split heq
    rw [calls_sequential]
    exact hfair p (c, now) ⟨rest, by simp⟩

theorem OnTrack.tallied {calls : List Access} {s : UsageService} (h : OnTrack s₀ calls s)
    (hp : s.pending = []) : Tallied calls s.store := by
  intro id row hl
  have howed := h.owed id row hl
  rw [hp] at howed
  exact howed

include hf in
/-- A call after which the tally stands was fair. -/
theorem OnTrack.fair {calls : List Access} {s : UsageService} (h : OnTrack s₀ calls s)
    (hp : s.pending = []) {c : Access} (hc : c.Admitted) (now : Nat)
    (htally : Tallied (calls ++ [c]) ((s.step f (.call c)).step f (.write 0 now none)).store) :
    c.Fair calls s₀ := by
  intro v hv
  by_cases hw : c.accessWeight = 1
  · exact .inl hw
  · refine .inr fun id hid hrow => ?_
    have hne : c.entryIds.isEmpty = false := by
      cases hl : c.entryIds with
      | nil =>
        rw [hl] at hid
        cases hid
      | cons _ _ => rfl
    have hstore : ((s.step f (.call c)).step f (.write 0 now none)).store =
        runWrite f (recordMcpUsage s.dedup c).1 now none s.store := by
      simp [step, recordAccess, hp, hne]
    rw [← h.rows id] at hrow
    obtain ⟨row, hl⟩ := Option.isSome_iff_exists.mp hrow
    have hcounts := runWrite_counts hf (recordMcpUsage s.dedup c).1 now s.store id
    rw [hl, ← hstore] at hcounts
    obtain ⟨row', hl', hrow'⟩ := Option.map_eq_some_iff.mp hcounts
    have hbump : (recordMcpUsage s.dedup c).1.bump id (tallyOf calls id) =
        tallyOf (calls ++ [c]) id := by
      rw [← h.tallied hp id row hl, ← htally id row' hl', hrow']
    exact ((bump_tally_iff h.remembers hc id).mp hbump hid v hv).resolve_left hw

end Exact

/-- **The counters are the tally of the votes exactly while every vote is counted once.** Over calls
whose writes run one after the other, every state's counters are the tally if and only if every call is
fair; and with calls and orderly writes in any interleaving, fair calls leave the tally whenever no
write is left to run. -/
theorem votes_tallied_iff {f : EntryRecord → Nat → UInt64}
    (hf : ∀ record now, isNan (f record now) = false) {s₀ : Store}
    (hzero : ∀ id row, s₀.entries.lookup id = some row → row.counts = ⟨0, 0, 0⟩) :
    (∀ cs : List (Access × Nat), (∀ c ∈ cs, c.1.Admitted) →
      ((∀ p, p <+: cs → Tallied (p.map Prod.fst) (run f s₀ (sequential p)).store) ↔
        ∀ p c, p ++ [c] <+: cs → c.1.Fair (p.map Prod.fst) s₀)) ∧
    (∀ acts : List UsageAct, (∀ c ∈ calls acts, c.Admitted) → (∀ a ∈ acts, a.Orderly) →
      (∀ before c after, acts = before ++ .call c :: after → c.Fair (calls before) s₀) →
      (run f s₀ acts).pending = [] → Tallied (calls acts) (run f s₀ acts).store) := by
  refine ⟨fun cs hadm => ⟨fun htally => ?_, fun hfair p hp => ?_⟩, fun acts hadm hord hfair hnone =>
    (run_onTrack hf hzero hadm hord hfair).tallied hnone⟩
  · -- each call is fair, from the calls before it being fair
    have hall : ∀ q, q <+: cs → ∀ p c, p ++ [c] <+: q → c.1.Fair (p.map Prod.fst) s₀ := by
      intro q
      induction q using List.reverseRecOn with
      | nil =>
        intro _ p c hpc
        have hlen := hpc.length_le
        simp at hlen
      | append_singleton q x ih =>
        intro hq p c hpc
        have hpre : q <+: cs := (List.prefix_append q [x]).trans hq
        rcases List.prefix_concat_iff.mp hpc with heq | hpc
        · obtain ⟨rfl, hx⟩ := List.append_inj' heq rfl
          obtain rfl := List.singleton_injective hx
          have htrack := sequential_onTrack hf hzero
            (fun y hy => hadm y (hpre.subset hy)) (ih hpre)
          refine htrack.fair hf (sequential_pending f s₀ p) (hadm c (hq.subset (by simp)))
            c.2 ?_
          have := htally (p ++ [c]) hq
          rw [run_sequential_concat, List.map_append] at this
          exact this
        · exact ih hpre p c hpc
    exact hall cs (List.prefix_refl cs)
  · exact (sequential_onTrack hf hzero (fun c hc => hadm c (hp.subset hc))
      fun q c hq => hfair q c (hq.trans hp)).tallied (sequential_pending f s₀ p)

/-- A store with the one entry 1, never used. -/
def unusedStore : Store :=
  { Store.empty with
    entries := AList.singleton 1 (Store.newRow (fun _ => Vector.replicate 32 0)
      ⟨"title", "content", "topic", "category", [], "source", .active, "agent", "", ""⟩ 0) }

theorem unusedStore_zero : ∀ id row, unusedStore.entries.lookup id = some row →
    row.counts = ⟨0, 0, 0⟩ := by
  intro id row hl
  have hmem := AList.mem_lookup_iff.mp hl
  simp [unusedStore] at hmem
  rw [hmem.2]
  rfl

/-- An agent finds entry 1 helpful, then another one does not. -/
def twoVotes : List (Access × Nat) :=
  [(⟨[1], some "a", some true, 1⟩, 0), (⟨[1], some "b", some false, 1⟩, 0)]

theorem votes_tallied_iff_twoVotes :
    Tallied (twoVotes.map Prod.fst) (run (fun _ _ => 0) unusedStore (sequential twoVotes)).store := by
  have hadm : ∀ c ∈ twoVotes, c.1.Admitted := by
    intro c hc
    simp only [twoVotes, List.mem_cons, List.not_mem_nil, or_false] at hc
    rcases hc with rfl | rfl
    · exact ⟨by decide, by decide⟩
    · exact ⟨by decide, by decide⟩
  obtain ⟨hiff, -⟩ := votes_tallied_iff (f := fun _ _ => 0) (fun _ _ => by decide) unusedStore_zero
  refine (hiff twoVotes hadm).mpr (fun p c hpc v hv => ?_) twoVotes (List.prefix_refl _)
  have hmem : c ∈ twoVotes := hpc.subset (by simp)
  simp only [twoVotes, List.mem_cons, List.not_mem_nil, or_false] at hmem
  rcases hmem with rfl | rfl
  · exact .inl rfl
  · exact .inl rfl

/-- One helpful vote given with a lookup of weight 2 counts twice. -/
theorem weighted_vote_counts_twice :
    ¬ Tallied [⟨[1], some "a", some true, 2⟩]
      (run (fun _ _ => 0) unusedStore (sequential [(⟨[1], some "a", some true, 2⟩, 0)])).store := by
  intro h
  have hcounts : ((run (fun _ _ => 0) unusedStore
      (sequential [(⟨[1], some "a", some true, 2⟩, 0)])).store.entries.lookup 1).map
        EntryRow.counts = some ⟨2, 2, 0⟩ := by decide +kernel
  obtain ⟨row, hl, hrow⟩ := Option.map_eq_some_iff.mp hcounts
  have htally : tallyOf [⟨[1], some "a", some true, 2⟩] 1 = ⟨2, 1, 0⟩ := by decide +kernel
  have := h 1 row hl
  rw [hrow, htally] at this
  cases this

end UsageService

end Unimatrix
