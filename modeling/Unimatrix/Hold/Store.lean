import Unimatrix.Lib.HashMap
import Unimatrix.Transcript.Content

/-!
# `TranscriptHold`: the bounded store of drained transcript buffers

Model of `infra/transcript_hold.rs`: `hold_on_drain`, `readopt`, `held_arc_for_session`,
`sweep_expired`, `enforce_cap` and `purge_record`.

* An `Arc<Mutex<TranscriptBuffer>>` is an `ArcId` into `buffers`, the memory the store shares with
  the session registry; every buffer there carries its representation invariant (`LiveBuffer`).
* An `Instant` is a natural number and every call is given the clock's reading. A call that iterates
  the map is given an `IterOrder`, so a result holds for every order the hasher picks.
* A purge is emitted under its trigger token. `Purge.arc` is not in the record: it says which buffer
  was cleared.
* The locks are never poisoned: no call panics while it holds one (`LiveBuffer.applyDelta_eq`).

`Purging` says once what a batch of removals does: it takes entries out, and every buffer is either
untouched or cleared and reported once. `enforce_cap`, `sweep_expired` and a mismatched `readopt` are
such batches.
-/

namespace Unimatrix

open Machine

/-! ## Buffers with their invariant -/

/-- A buffer in a reachable state. -/
abbrev LiveBuffer : Type := { b : TranscriptBuffer // b.WF }

namespace LiveBuffer

open TranscriptBuffer

/-- `TranscriptBuffer::new`. -/
def new (maxBytes : Nat) (scanner : SignatureScanner) : LiveBuffer :=
  ⟨TranscriptBuffer.new maxBytes scanner, new_wf maxBytes scanner⟩

theorem applyDelta_isSome (b : LiveBuffer) (offset : Nat) (bytes : List UInt8) :
    (b.1.applyDelta offset bytes).isSome := by
  obtain ⟨b', hb', -⟩ := b.2.applyDelta_step offset bytes
  rw [hb']
  rfl

/-- `TranscriptBuffer::apply_delta`, which always returns. -/
def applyDelta (b : LiveBuffer) (offset : Nat) (bytes : List UInt8) : LiveBuffer :=
  ⟨(b.1.applyDelta offset bytes).get (b.applyDelta_isSome offset bytes), by
    obtain ⟨b', hb', hs⟩ := b.2.applyDelta_step offset bytes
    simp only [hb', Option.get_some]
    exact hs.wf b.2⟩

theorem applyDelta_eq (b : LiveBuffer) (offset : Nat) (bytes : List UInt8) :
    b.1.applyDelta offset bytes = some (b.applyDelta offset bytes).1 :=
  (Option.some_get _).symm

/-- `TranscriptBuffer::clear`, without the count. -/
def clear (b : LiveBuffer) : LiveBuffer := ⟨b.1.clear.1, b.2.clear⟩

/-- `TranscriptBuffer::len`. -/
def len (b : LiveBuffer) : Nat := b.1.data.length

@[simp] theorem len_clear (b : LiveBuffer) : b.clear.len = 0 := rfl

/-- **A delta never empties a buffer**: what it drops from the span it replaces. -/
theorem len_applyDelta_pos {b : LiveBuffer} (h : 0 < b.len) (offset : Nat) (bytes : List UInt8) :
    0 < (b.applyDelta offset bytes).len := by
  obtain ⟨b', hb', hs⟩ := b.2.applyDelta_step offset bytes
  obtain rfl : (b.applyDelta offset bytes).1 = b' :=
    Option.some.inj ((b.applyDelta_eq offset bytes).symm.trans hb')
  exact hs.data_pos b.2.toShape h

end LiveBuffer

/-! ## The store -/

/-- The address of a shared buffer. -/
abbrev ArcId : Type := Nat

/-- `HeldBuffer`. -/
structure HeldBuffer where
  arc : ArcId
  featureCycle : String
  lastActivityAt : Nat
  deriving DecidableEq, Repr

/-- The trigger tokens of the purges the store causes: `stale_sweep`, `cap_evict` and
`readopt_mismatch`. -/
inductive PurgeTrigger where
  | staleSweep
  | capEvict
  | readoptMismatch
  deriving DecidableEq, Repr

/-- `TranscriptPurgeRecord`. -/
structure TranscriptPurgeRecord where
  sessionId : String
  bytesPurged : Nat
  deriving DecidableEq, Repr

/-- An emitted record with its trigger, and the buffer it is about. -/
structure Purge where
  arc : ArcId
  trigger : PurgeTrigger
  record : TranscriptPurgeRecord
  deriving DecidableEq, Repr

/-- `TranscriptHold`, with the buffers behind the `Arc`s. -/
structure TranscriptHold where
  held : HashMap String HeldBuffer
  maxSessions : Nat
  buffers : ArcId → LiveBuffer

/-- `session_key`. -/
def sessionKey (_tenant _project sessionId : String) : String := sessionId

namespace TranscriptHold

open HashMap

/-- `TranscriptHold::new`: a cap of 0 is raised to 1. -/
def new (maxSessions : Nat) (buffers : ArcId → LiveBuffer) : TranscriptHold :=
  ⟨∅, max maxSessions 1, buffers⟩

/-- The record of `purge_record` for a buffer that held `purged` bytes: none for an empty one. -/
def purgeRecord (sessionId : String) (purged : Nat) : Option TranscriptPurgeRecord :=
  if purged = 0 then none
  else some { sessionId := sessionKey "default" "" sessionId, bytesPurged := purged }

/-- What is emitted when buffer `arc`, held by `sessionId`, is purged. -/
def report (trigger : PurgeTrigger) (sessionId : String) (arc : ArcId) (b : LiveBuffer) :
    List Purge :=
  ((purgeRecord sessionId b.len).map (Purge.mk arc trigger)).toList

/-- `guard.remove(&sid).and_then(|held| purge_record(&sid, &held))`: `purge_record` clears the
buffer. -/
def removePurge (t : TranscriptHold) (trigger : PurgeTrigger) (sessionId : String) :
    TranscriptHold × List Purge :=
  match t.held.lookup sessionId with
  | none => (t, [])
  | some h =>
    ({ t with
        held := t.held.erase sessionId
        buffers := Function.update t.buffers h.arc (t.buffers h.arc).clear },
      report trigger sessionId h.arc (t.buffers h.arc))

/-- The same for each of a list of sessions. -/
def removePurgeAll (t : TranscriptHold) (trigger : PurgeTrigger) :
    List String → TranscriptHold × List Purge
  | [] => (t, [])
  | sessionId :: sids =>
    let first := t.removePurge trigger sessionId
    let rest := first.1.removePurgeAll trigger sids
    (rest.1, first.2 ++ rest.2)

/-- The loop of `enforce_cap`. Every round removes an entry, so `len` rounds are enough. -/
def enforceCapLoop (order : IterOrder String HeldBuffer) :
    Nat → TranscriptHold → TranscriptHold × List Purge
  | 0, t => (t, [])
  | rounds + 1, t =>
    if t.maxSessions < len t.held then
      match firstMin (fun e => e.2.lastActivityAt) (iter t.held order) with
      | none => (t, [])
      | some victim =>
        let first := t.removePurge .capEvict victim.1
        let rest := enforceCapLoop order rounds first.1
        (rest.1, first.2 ++ rest.2)
    else (t, [])

/-- `enforce_cap`. -/
def enforceCap (t : TranscriptHold) (order : IterOrder String HeldBuffer) :
    TranscriptHold × List Purge :=
  enforceCapLoop order (len t.held) t

/-- `hold_on_drain_inner`. -/
def holdOnDrain (t : TranscriptHold) (now : Nat) (order : IterOrder String HeldBuffer)
    (sessionId : String) (arc : ArcId) (featureCycle : String) : TranscriptHold × List Purge :=
  if featureCycle.isEmpty then (t, [])
  else
    let held := t.held.insert sessionId
      { arc := arc, featureCycle := featureCycle, lastActivityAt := now }
    enforceCap { t with held := held } order

/-- `cycle_matches` of `readopt_inner`. -/
def cycleMatches (h : HeldBuffer) (registeringFeatureCycle : String) : Bool :=
  !registeringFeatureCycle.isEmpty && h.featureCycle == registeringFeatureCycle

/-- `readopt_inner`. -/
def readopt (t : TranscriptHold) (sessionId registeringFeatureCycle : String) :
    TranscriptHold × Option ArcId × List Purge :=
  match t.held.lookup sessionId with
  | none => (t, none, [])
  | some h =>
    if cycleMatches h registeringFeatureCycle then
      ({ t with held := t.held.erase sessionId }, some h.arc, [])
    else
      let dropped := t.removePurge .readoptMismatch sessionId
      (dropped.1, none, dropped.2)

/-- `held_arc_for_session`: the handle, with its activity bumped. -/
def heldArcForSession (t : TranscriptHold) (now : Nat) (sessionId : String) :
    TranscriptHold × Option ArcId :=
  match t.held.lookup sessionId with
  | none => (t, none)
  | some h => ({ t with held := t.held.insert sessionId { h with lastActivityAt := now } }, some h.arc)

/-- `lock_buffer(&arc).apply_delta(offset, bytes)`. -/
def deliver (t : TranscriptHold) (arc : ArcId) (offset : Nat) (bytes : List UInt8) :
    TranscriptHold :=
  { t with buffers := Function.update t.buffers arc ((t.buffers arc).applyDelta offset bytes) }

/-- The sessions `sweep_expired` collects. -/
def expired (t : TranscriptHold) (now : Nat) (order : IterOrder String HeldBuffer) (ttl : Nat) :
    List String :=
  ((iter t.held order).filter fun e => ttl ≤ now - e.2.lastActivityAt).map Prod.fst

/-- `sweep_expired`. -/
def sweepExpired (t : TranscriptHold) (now : Nat) (order : IterOrder String HeldBuffer)
    (ttl : Nat) : TranscriptHold × List Purge :=
  t.removePurgeAll .staleSweep (t.expired now order ttl)

end TranscriptHold

/-! ## Runs -/

/-- A call on the store, or a delta applied to a buffer through a handle. -/
inductive HoldCall where
  | holdOnDrain (sessionId : String) (arc : ArcId) (featureCycle : String)
  | readopt (sessionId registeringFeatureCycle : String)
  | heldArcForSession (sessionId : String)
  | applyDelta (arc : ArcId) (offset : Nat) (bytes : List UInt8)
  | sweepExpired (ttl : Nat)
  deriving DecidableEq, Repr

/-- A call with the clock's reading and the order the map is iterated in. -/
structure HoldEvent where
  call : HoldCall
  now : Nat
  order : HashMap.IterOrder String HeldBuffer

/-- What a call gives back and the purges it causes. -/
structure HoldReply where
  returned : Option ArcId
  purges : List Purge

namespace TranscriptHold

/-- One call. -/
def step (t : TranscriptHold) (e : HoldEvent) : TranscriptHold × HoldReply :=
  match e.call with
  | .holdOnDrain sessionId arc featureCycle =>
    let r := t.holdOnDrain e.now e.order sessionId arc featureCycle
    (r.1, ⟨none, r.2⟩)
  | .readopt sessionId registeringFeatureCycle =>
    let r := t.readopt sessionId registeringFeatureCycle
    (r.1, ⟨r.2.1, r.2.2⟩)
  | .heldArcForSession sessionId =>
    let r := t.heldArcForSession e.now sessionId
    (r.1, ⟨r.2, []⟩)
  | .applyDelta arc offset bytes => (t.deliver arc offset bytes, ⟨none, []⟩)
  | .sweepExpired ttl =>
    let r := t.sweepExpired e.now e.order ttl
    (r.1, ⟨none, r.2⟩)

/-- The store after a sequence of calls. -/
def run (t : TranscriptHold) : List HoldEvent → TranscriptHold
  | [] => t
  | e :: es => (t.step e).1.run es

/-- The purges of a sequence of calls, in order. -/
def purges (t : TranscriptHold) : List HoldEvent → List Purge
  | [] => []
  | e :: es => (t.step e).2.purges ++ (t.step e).1.purges es

theorem run_append (t : TranscriptHold) (es fs : List HoldEvent) :
    t.run (es ++ fs) = (t.run es).run fs := by
  induction es generalizing t with
  | nil => rfl
  | cons e es ih => exact ih _

end TranscriptHold

end Unimatrix
