import Mathlib.Data.Finset.Basic
import Unimatrix.Store.Changes

/-!
# Usage recording

Model of `usage_dedup.rs` and of the MCP path of `usage.rs`: `record_access` asks the dedup tracker what
is new, and spawns the write of it.

* The write is a task of its own. A service keeps the writes that are still to run (`pending`), and an
  `Act` is a call or the run of one of them, in any order, failing or not.
* The tracker is behind a mutex and `record_access` does not wait, so a call is one step of it.
* The confidence function is a parameter: it is floating point.
-/

namespace Unimatrix

open Txn

/-! ## The dedup tracker -/

/-- `VoteAction`. -/
inductive VoteAction where
  | newVote
  | correctedVote
  | noOp
  deriving DecidableEq, Repr

/-- `DedupState`. -/
structure UsageDedup where
  accessCounted : Finset (String × Nat)
  voteRecorded : HashMap (String × Nat) Bool

namespace UsageDedup

/-- `UsageDedup::new`. -/
def new : UsageDedup := ⟨∅, ∅⟩

/-- The loop of `filter_access`. -/
def filterAccessLoop (agentId : String) :
    List Nat → Finset (String × Nat) → List Nat × Finset (String × Nat)
  | [], counted => ([], counted)
  | id :: ids, counted =>
    let rest := filterAccessLoop agentId ids (insert (agentId, id) counted)
    if (agentId, id) ∈ counted then rest else (id :: rest.1, rest.2)

/-- `filter_access`. -/
def filterAccess (d : UsageDedup) (agentId : String) (entryIds : List Nat) : List Nat × UsageDedup :=
  let r := filterAccessLoop agentId entryIds d.accessCounted
  (r.1, { d with accessCounted := r.2 })

/-- The loop of `check_votes`. -/
def checkVotesLoop (agentId : String) (helpful : Bool) :
    List Nat → HashMap (String × Nat) Bool → List (Nat × VoteAction) × HashMap (String × Nat) Bool
  | [], votes => ([], votes)
  | id :: ids, votes =>
    match votes.lookup (agentId, id) with
    | none =>
      let rest := checkVotesLoop agentId helpful ids (votes.insert (agentId, id) helpful)
      ((id, .newVote) :: rest.1, rest.2)
    | some prior =>
      if prior = helpful then
        let rest := checkVotesLoop agentId helpful ids votes
        ((id, .noOp) :: rest.1, rest.2)
      else
        let rest := checkVotesLoop agentId helpful ids (votes.insert (agentId, id) helpful)
        ((id, .correctedVote) :: rest.1, rest.2)

/-- `check_votes`. -/
def checkVotes (d : UsageDedup) (agentId : String) (entryIds : List Nat) (helpful : Bool) :
    List (Nat × VoteAction) × UsageDedup :=
  let r := checkVotesLoop agentId helpful entryIds d.voteRecorded
  (r.1, { d with voteRecorded := r.2 })

end UsageDedup

/-! ## Recording -/

/-- A call of `record_access` from an MCP tool, with what it reads of its `UsageContext`. -/
structure Access where
  entryIds : List Nat
  agentId : Option String
  helpful : Option Bool
  accessWeight : UInt32
  deriving DecidableEq, Repr

/-- `ctx.agent_id.unwrap_or_default()`. -/
def Access.agent (c : Access) : String := c.agentId.getD ""

/-- The arguments of a spawned `record_usage_with_confidence`. -/
structure UsageWrite where
  allIds : List Nat
  usage : Store.Usage

/-- The id lists a vote action goes to. -/
def pushVote (helpfulValue : Bool) (u : Store.Usage) (e : Nat × VoteAction) : Store.Usage :=
  match e.2 with
  | .newVote =>
    if helpfulValue then { u with helpfulIds := u.helpfulIds ++ [e.1] }
    else { u with unhelpfulIds := u.unhelpfulIds ++ [e.1] }
  | .correctedVote =>
    if helpfulValue then
      { u with
        helpfulIds := u.helpfulIds ++ [e.1]
        decrementUnhelpfulIds := u.decrementUnhelpfulIds ++ [e.1] }
    else
      { u with
        unhelpfulIds := u.unhelpfulIds ++ [e.1]
        decrementHelpfulIds := u.decrementHelpfulIds ++ [e.1] }
  | .noOp => u

/-- The lists with each id repeated `access_weight` times. -/
def multiplied (accessWeight : UInt32) (ids : List Nat) : List Nat :=
  if accessWeight ≤ 1 then ids
  else ids.flatMap fun id => List.replicate accessWeight.toNat id

/-- Step 2 of `record_mcp_usage`: what the vote does to the counters. -/
def voteLists (d : UsageDedup) (c : Access) (accessIds : List Nat) : Store.Usage × UsageDedup :=
  match c.helpful with
  | none => (⟨accessIds, [], [], [], []⟩, d)
  | some helpfulValue =>
    let r := d.checkVotes c.agent c.entryIds helpfulValue
    (r.1.foldl (pushVote helpfulValue) ⟨accessIds, [], [], [], []⟩, r.2)

/-- `record_mcp_usage`: the write it spawns. -/
def recordMcpUsage (d : UsageDedup) (c : Access) : UsageWrite × UsageDedup :=
  let access := d.filterAccess c.agent c.entryIds
  let votes := voteLists access.2 c (multiplied c.accessWeight access.1)
  (⟨multiplied c.accessWeight c.entryIds, votes.1⟩, votes.2)

/-- `record_access`: an empty list records nothing. -/
def recordAccess (d : UsageDedup) (c : Access) : Option UsageWrite × UsageDedup :=
  if c.entryIds.isEmpty then (none, d)
  else
    let r := recordMcpUsage d c
    (some r.1, r.2)

/-! ## Runs -/

/-- A step: a call, or the run of the `k`-th write still to run. -/
inductive UsageAct where
  | call (c : Access)
  | write (k : Nat) (now : Nat) (fault : Option (Nat × StoreError))

/-- The service and the store it writes to. -/
structure UsageService where
  dedup : UsageDedup
  pending : List UsageWrite
  store : Store

namespace UsageService

/-- A started service. -/
def start (store : Store) : UsageService := ⟨UsageDedup.new, [], store⟩

/-- Run a spawned write. A failure is logged and forgotten. -/
def runWrite (confidenceFn : EntryRecord → Nat → UInt64) (w : UsageWrite) (now : Nat)
    (fault : Option (Nat × StoreError)) (store : Store) : Store :=
  (Store.recordUsage w.allIds w.usage (some confidenceFn) now ⟨store, fault⟩).2.db

/-- One step. -/
def step (confidenceFn : EntryRecord → Nat → UInt64) (s : UsageService) : UsageAct → UsageService
  | .call c =>
    let r := recordAccess s.dedup c
    { s with dedup := r.2, pending := s.pending ++ r.1.toList }
  | .write k now fault =>
    match s.pending[k]? with
    | none => s
    | some w =>
      { s with
        pending := s.pending.eraseIdx k
        store := runWrite confidenceFn w now fault s.store }

/-- A run. -/
def run (confidenceFn : EntryRecord → Nat → UInt64) (store : Store) (acts : List UsageAct) :
    UsageService := acts.foldl (step confidenceFn) (start store)

end UsageService

/-! ## What the tracker answers -/

/-- The action of one vote. -/
def voteAction (helpful : Bool) : Option Bool → VoteAction
  | none => .newVote
  | some prior => if prior = helpful then .noOp else .correctedVote

namespace UsageDedup

theorem filterAccessLoop_spec (agentId : String) :
    ∀ (ids : List Nat) (counted : Finset (String × Nat)),
      (∀ id, id ∈ (filterAccessLoop agentId ids counted).1 ↔ id ∈ ids ∧ (agentId, id) ∉ counted) ∧
        ∀ a id, (a, id) ∈ (filterAccessLoop agentId ids counted).2 ↔
          (a, id) ∈ counted ∨ a = agentId ∧ id ∈ ids
  | [], counted => by simp [filterAccessLoop]
  | i :: ids, counted => by
    obtain ⟨hids, hcounted⟩ := filterAccessLoop_spec agentId ids (insert (agentId, i) counted)
    constructor
    · intro id
      rw [filterAccessLoop]
      split
      · rename_i hmem
        rw [hids id]
        by_cases heq : id = i
        · simp [heq, hmem]
        · simp [heq]
      · rename_i hmem
        by_cases heq : id = i
        · simp [heq, hmem]
        · simp [heq, hids id]
    · intro a id
      have hrest : ((a, id) ∈ counted ∨ a = agentId ∧ id ∈ i :: ids) ↔
          (a, id) ∈ insert (agentId, i) counted ∨ a = agentId ∧ id ∈ ids := by
        simp only [Finset.mem_insert, Prod.mk.injEq, List.mem_cons]
        tauto
      rw [hrest, ← hcounted a id, filterAccessLoop]
      split <;> rfl

/-- One round of `check_votes`: its action, and the vote is recorded. -/
theorem checkVotesLoop_cons (agentId : String) (helpful : Bool) (i : Nat) (ids : List Nat)
    (votes : HashMap (String × Nat) Bool) :
    ∃ votes', (∀ key, votes'.lookup key =
        if key = (agentId, i) then some helpful else votes.lookup key) ∧
      checkVotesLoop agentId helpful (i :: ids) votes =
        ((i, voteAction helpful (votes.lookup (agentId, i))) ::
          (checkVotesLoop agentId helpful ids votes').1,
          (checkVotesLoop agentId helpful ids votes').2) := by
  have hinsert : ∀ key, (votes.insert (agentId, i) helpful).lookup key =
      if key = (agentId, i) then some helpful else votes.lookup key := by
    intro key
    rw [HashMap.lookup_insert_eq]
  rw [checkVotesLoop]
  cases hl : votes.lookup (agentId, i) with
  | none => exact ⟨_, hinsert, rfl⟩
  | some prior =>
    by_cases hp : prior = helpful
    · refine ⟨votes, fun key => ?_, by simp [voteAction, hp]⟩
      split
      · rename_i hkey
        rw [hkey, hl, hp]
      · rfl
    · exact ⟨_, hinsert, by simp [voteAction, hp]⟩

theorem checkVotesLoop_spec (agentId : String) (helpful : Bool) :
    ∀ (ids : List Nat) (votes : HashMap (String × Nat) Bool), ids.Nodup →
      (∀ id act, (id, act) ∈ (checkVotesLoop agentId helpful ids votes).1 ↔
        id ∈ ids ∧ act = voteAction helpful (votes.lookup (agentId, id))) ∧
      ∀ a id, (checkVotesLoop agentId helpful ids votes).2.lookup (a, id) =
        if a = agentId ∧ id ∈ ids then some helpful else votes.lookup (a, id)
  | [], votes, _ => by simp [checkVotesLoop]
  | i :: ids, votes, hnodup => by
    obtain ⟨hi, hids⟩ := List.nodup_cons.mp hnodup
    obtain ⟨votes', hvotes, hcons⟩ := checkVotesLoop_cons agentId helpful i ids votes
    obtain ⟨hact, hlook⟩ := checkVotesLoop_spec agentId helpful ids votes' hids
    rw [hcons]
    constructor
    · intro id act
      rw [List.mem_cons, Prod.mk.injEq, hact id act, List.mem_cons]
      by_cases heq : id = i
      · subst heq
        simp [hi]
      · rw [hvotes (agentId, id)]
        simp [heq]
    · intro a id
      rw [hlook a id, hvotes (a, id)]
      by_cases ha : a = agentId
      · by_cases heq : id = i
        · simp [ha, heq]
        · simp [ha, heq]
      · simp [ha]

end UsageDedup

end Unimatrix
