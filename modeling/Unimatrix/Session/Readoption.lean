import Unimatrix.Session.Registry

/-!
# Deltas that race a re-adoption

`register_session` takes the hold lock (`readopt` gives the held buffer back) and then the registry
lock (the session is published). A concurrent `apply_transcript_delta` takes the registry lock to
look the session up; on a miss it keeps that lock and takes the hold lock; last it takes the lock of
the buffer it found. Here each lock acquisition is one step, and a `Race` is a state of one
registering thread and `n` delta threads for one session, stepped by an arbitrary schedule.

* `register_sequential`, `delta_sequential`: a thread that runs alone computes the method.
* `Strays`: the step at which a delta loses the held buffer (`Loses`). It takes the hold lock after
  `readopt` took the buffer out and before the session is published, or it finds the session still
  registered with another buffer.
* `Ready`: what holds at every point of a race; `Ready.step` also says that the deltas are on the way
  to the held buffer after a step iff they were before it and the step does not stray.
* `all_merged_iff`: every delta is merged into the buffer the session ends up with iff no step of the
  schedule strays. `delta_dropped` is a schedule with one.
-/

namespace Unimatrix.SessionRegistry

open HashMap

/-- Where the registering thread is. -/
inductive RegisterPc where
  | start
  /-- It has its buffer and waits for the registry lock. -/
  | acquired (arc : ArcId)
  | done
  deriving DecidableEq, Repr

/-- Where a delta thread is. -/
inductive DeltaPc where
  | start
  /-- It missed the session in the registry and still holds that lock. -/
  | missed
  /-- It has a buffer and waits for its lock. -/
  | located (arc : ArcId)
  | merged (arc : ArcId)
  | dropped
  deriving DecidableEq, Repr

/-- The calls that race: `register_session` under `featureCycle`, and `n` deltas. -/
structure RaceCalls (n : Nat) where
  sessionId : String
  role : Option String
  featureCycle : String
  deltas : Fin n → Nat × List UInt8

/-- The registry with the threads at work on it. -/
structure Race (n : Nat) where
  registry : SessionRegistry
  /-- The delta thread that holds the registry lock between two steps. -/
  lockedBy : Option (Fin n)
  register : RegisterPc
  delta : Fin n → DeltaPc

/-- Which thread steps, and the clocks it reads. -/
structure Turn (n : Nat) where
  /-- `none` is the registering thread. -/
  thread : Option (Fin n)
  now : Nat
  holdNow : Nat
  deriving DecidableEq, Repr

section Race

variable {n : Nat} (c : RaceCalls n)

/-- The next lock acquisition of the registering thread; it waits while the lock is taken. -/
def stepRegister (x : Race n) (now : Nat) : Race n :=
  match x.register with
  | .start =>
    let acquired := x.registry.acquireTranscript c.sessionId (some c.featureCycle)
    { x with registry := acquired.1, register := .acquired acquired.2.1 }
  | .acquired arc =>
    if x.lockedBy = none then
      { x with
        registry := x.registry.publish now c.sessionId c.role (some c.featureCycle) arc
        register := .done }
    else x
  | .done => x

/-- The next lock acquisition of delta thread `k`. -/
def stepDelta (x : Race n) (now holdNow : Nat) (k : Fin n) : Race n :=
  match x.delta k with
  | .start =>
    if x.lockedBy = none then
      match x.registry.sessions.lookup (sessionKey "default" "" c.sessionId) with
      | some state =>
        { x with
          registry := x.registry.bumpActivity now (sessionKey "default" "" c.sessionId)
          delta := Function.update x.delta k (.located state.transcript) }
      | none => { x with lockedBy := some k, delta := Function.update x.delta k .missed }
    else x
  | .missed =>
    let found := x.registry.heldArc holdNow c.sessionId
    { x with
      registry := found.1
      lockedBy := none
      delta := Function.update x.delta k (found.2.elim .dropped .located) }
  | .located arc =>
    { x with
      registry := { x.registry with
        hold := x.registry.hold.deliver arc (c.deltas k).1 (c.deltas k).2 }
      delta := Function.update x.delta k (.merged arc) }
  | .merged _ => x
  | .dropped => x

/-- One step of the race. -/
def stepRace (x : Race n) (t : Turn n) : Race n :=
  match t.thread with
  | none => stepRegister c x t.now
  | some k => stepDelta c x t.now t.holdNow k

/-- The race after a schedule. -/
def runRace (x : Race n) (ts : List (Turn n)) : Race n := ts.foldl (stepRace c) x

/-- No thread has started. -/
def startRace (r : SessionRegistry) : Race n := ⟨r, none, .start, fun _ => .start⟩

/-! ## A thread that runs alone -/

/-- The two steps of a registration are `register_session`. -/
theorem register_sequential (r : SessionRegistry) (now : Nat) :
    (stepRegister c (stepRegister c (startRace r) now) now).registry =
      (r.registerSession now c.sessionId c.role (some c.featureCycle)).1 := rfl

/-- The three steps of a delta are `apply_transcript_delta`. -/
theorem delta_sequential (r : SessionRegistry) (now holdNow : Nat) (k : Fin n) :
    (stepDelta c (stepDelta c (stepDelta c (startRace r) now holdNow k) now holdNow k)
      now holdNow k).registry =
      r.applyTranscriptDelta now holdNow c.sessionId (c.deltas k).1 (c.deltas k).2 := by
  have hself : ∀ (d : Fin n → DeltaPc) (pc : DeltaPc), Function.update d k pc k = pc :=
    fun d pc => Function.update_self k pc d
  unfold applyTranscriptDelta
  cases hs : r.sessions.lookup (sessionKey "default" "" c.sessionId) with
  | some state =>
    simp only [stepDelta, startRace, hs, if_true, hself]
  | none =>
    cases hf : r.heldArc holdNow c.sessionId with
    | mk r' found =>
      cases found with
      | none => simp only [stepDelta, startRace, hs, hf, if_true, hself, Option.elim]
      | some arc => simp only [stepDelta, startRace, hs, hf, if_true, hself, Option.elim]

end Race

/-! ## What a race may observe of the registry -/

/-- The buffer session `s` is registered with. -/
def owned (r : SessionRegistry) (s : String) : Option ArcId :=
  (r.sessions.lookup s).map SessionState.transcript

/-- The buffer held for session `s`, with its cycle. -/
def heldFor (r : SessionRegistry) (s : String) : Option (ArcId × String) :=
  (r.hold.held.lookup s).map fun h => (h.arc, h.featureCycle)

theorem owned_bumpActivity (r : SessionRegistry) (now : Nat) (sid s : String) :
    (r.bumpActivity now sid).owned s = r.owned s := by
  unfold owned bumpActivity
  rw [lookup_modify, Option.map_map]
  congr 1
  funext state
  show (if s = sid then _ else state).transcript = state.transcript
  split <;> rfl

theorem bumpActivity_hold (r : SessionRegistry) (now : Nat) (sid : String) :
    (r.bumpActivity now sid).hold = r.hold := by
  unfold bumpActivity modify
  split <;> rfl

theorem bumpActivity_holdWired (r : SessionRegistry) (now : Nat) (sid : String) :
    (r.bumpActivity now sid).holdWired = r.holdWired := by
  unfold bumpActivity modify
  split <;> rfl

theorem heldArc_holdWired (r : SessionRegistry) (holdNow : Nat) (sid : String) :
    (r.heldArc holdNow sid).1.holdWired = r.holdWired := by
  unfold heldArc
  split <;> rfl

/-- The lookup of a held buffer finds its handle. -/
theorem heldArc_snd {r : SessionRegistry} (hw : r.holdWired = true) (holdNow : Nat)
    (s : String) : (r.heldArc holdNow s).2 = (r.heldFor s).map Prod.fst := by
  unfold heldArc heldFor TranscriptHold.heldArcForSession
  rw [if_pos hw]
  cases r.hold.held.lookup s <;> rfl

theorem heldFor_heldArc (r : SessionRegistry) (holdNow : Nat) (s : String) :
    (r.heldArc holdNow s).1.heldFor s = r.heldFor s := by
  unfold heldArc
  split
  · unfold heldFor TranscriptHold.heldArcForSession
    cases hs : r.hold.held.lookup s with
    | none =>
      dsimp only
      rw [hs]
    | some h =>
      dsimp only
      rw [lookup_insert_eq, if_pos rfl]
      rfl
  · rfl

/-- A registration under the cycle a buffer is held for takes it out of the hold. -/
theorem acquireTranscript_of_held {r : SessionRegistry} {s cycle : String} {a : ArcId}
    (hw : r.holdWired = true) (hne : cycle ≠ "") (hheld : r.heldFor s = some (a, cycle)) :
    r.acquireTranscript s (some cycle) =
      ({ r with hold := { r.hold with held := r.hold.held.erase s } }, a, []) := by
  obtain ⟨h, hlook, hpair⟩ := Option.map_eq_some_iff.mp hheld
  obtain ⟨rfl, rfl⟩ := Prod.mk.inj hpair
  have hempty : h.featureCycle.isEmpty = false := by
    rw [Bool.eq_false_iff]
    exact fun he => hne (String.isEmpty_iff.mp he)
  have hcycle : r.holdCycle (some h.featureCycle) = some h.featureCycle := by
    show (if r.holdWired && !h.featureCycle.isEmpty then some h.featureCycle else none) = _
    rw [hw, hempty]
    rfl
  have hmatch : TranscriptHold.cycleMatches h h.featureCycle = true := by
    unfold TranscriptHold.cycleMatches
    rw [hempty, beq_self_eq_true]
    rfl
  have hread : r.hold.readopt s h.featureCycle =
      ({ r.hold with held := r.hold.held.erase s }, some h.arc, []) := by
    unfold TranscriptHold.readopt
    rw [hlook]
    exact if_pos hmatch
  unfold acquireTranscript
  rw [hcycle]
  dsimp only
  rw [hread]

/-! ## The invariant of a race -/

section Invariant

variable {n : Nat} {c : RaceCalls n} {a : ArcId}

/-- A delta at `pc` that steps now loses the held buffer `a`: it takes the hold lock once `readopt`
took the buffer out, or it finds the session registered with another buffer. -/
def Loses (c : RaceCalls n) (a : ArcId) (x : Race n) : DeltaPc → Prop
  | .missed => x.register ≠ .start
  | .start => x.lockedBy = none ∧ x.register ≠ .done ∧
      ∃ a', x.registry.owned c.sessionId = some a' ∧ a' ≠ a
  | _ => False

/-- At this step a delta loses the held buffer `a`. -/
def Strays (c : RaceCalls n) (a : ArcId) (x : Race n) (t : Turn n) : Prop :=
  ∃ k, t.thread = some k ∧ Loses c a x (x.delta k)

/-- What holds while the buffer `a`, held for the session, is re-adopted. -/
structure Ready (c : RaceCalls n) (a : ArcId) (x : Race n) : Prop where
  wired : x.registry.holdWired = true
  held : x.register = .start → x.registry.heldFor c.sessionId = some (a, c.featureCycle)
  taken : x.register ≠ .start → x.registry.heldFor c.sessionId = none
  acquired : ∀ a', x.register = .acquired a' → a' = a
  published : x.register = .done → x.registry.owned c.sessionId = some a
  lock : ∀ k, x.delta k = .missed → x.lockedBy = some k
  free : x.register = .done → x.lockedBy = none

/-- The delta has lost no chance to reach buffer `a`. -/
def OnWay (a : ArcId) : DeltaPc → Prop
  | .start => True
  | .missed => True
  | .located a' => a' = a
  | .merged a' => a' = a
  | .dropped => False

theorem onWay_update {d : Fin n → DeltaPc} {k : Fin n} {pc : DeltaPc} {p : Prop}
    (h : OnWay a pc ↔ OnWay a (d k) ∧ p) :
    (∀ j, OnWay a (Function.update d k pc j)) ↔ (∀ j, OnWay a (d j)) ∧ p := by
  constructor
  · intro hall
    have hk := hall k
    rw [Function.update_self, h] at hk
    refine ⟨fun j => ?_, hk.2⟩
    by_cases hj : j = k
    · rw [hj]
      exact hk.1
    · have := hall j
      rwa [Function.update_of_ne hj] at this
  · rintro ⟨hall, hp⟩ j
    by_cases hj : j = k
    · rw [hj, Function.update_self, h]
      exact ⟨hall k, hp⟩
    · rw [Function.update_of_ne hj]
      exact hall j

/-- A step of a delta that shows the registering thread nothing new. -/
theorem Ready.of_delta {x : Race n} (hx : Ready c a x) {r : SessionRegistry}
    {locked : Option (Fin n)} {d : Fin n → DeltaPc} (hw : r.holdWired = x.registry.holdWired)
    (hh : r.heldFor c.sessionId = x.registry.heldFor c.sessionId)
    (ho : r.owned c.sessionId = x.registry.owned c.sessionId)
    (hlock : ∀ k, d k = .missed → locked = some k) (hfree : x.register = .done → locked = none) :
    Ready c a ⟨r, locked, x.register, d⟩ where
  wired := hw.trans hx.wired
  held := fun h => hh.trans (hx.held h)
  taken := fun h => hh.trans (hx.taken h)
  acquired := hx.acquired
  published := fun h => ho.trans (hx.published h)
  lock := hlock
  free := hfree

/-- The registering thread keeps the invariant and touches no delta. -/
theorem Ready.stepRegister {x : Race n} (hx : Ready c a x) (hne : c.featureCycle ≠ "")
    (now : Nat) :
    Ready c a (stepRegister c x now) ∧ (stepRegister c x now).delta = x.delta := by
  unfold SessionRegistry.stepRegister
  cases hr : x.register with
  | start =>
    dsimp only
    rw [acquireTranscript_of_held hx.wired hne (hx.held hr)]
    refine ⟨⟨hx.wired, fun h => absurd h (by simp), fun _ => ?_, fun a' h => ?_,
      fun h => absurd h (by simp), hx.lock, fun h => absurd h (by simp)⟩, rfl⟩
    · show ((x.registry.hold.held.erase c.sessionId).lookup c.sessionId).map _ = none
      rw [AList.lookup_erase]
      rfl
    · exact (RegisterPc.acquired.inj h).symm
  | acquired arc =>
    dsimp only
    split
    · rename_i hfree
      obtain rfl := hx.acquired arc hr
      refine ⟨⟨hx.wired, fun h => absurd h (by simp), fun _ => hx.taken (by rw [hr]; simp),
        fun a' h => absurd h (by simp), fun _ => ?_, hx.lock, fun _ => hfree⟩, rfl⟩
      show ((x.registry.sessions.insert c.sessionId _).lookup c.sessionId).map _ = some arc
      rw [AList.lookup_insert]
      rfl
    · exact ⟨hx, rfl⟩
  | done => exact ⟨hx, rfl⟩

theorem missed_of_update {d : Fin n → DeltaPc} {k j : Fin n} {pc : DeltaPc} (hpc : pc ≠ .missed)
    (h : Function.update d k pc j = .missed) : d j = .missed := by
  by_cases hjk : j = k
  · rw [hjk, Function.update_self] at h
    exact absurd h hpc
  · rwa [Function.update_of_ne hjk] at h

section Delta

variable {x : Race n} {k : Fin n}

/-- A delta that finds the session registered goes to the buffer the session owns. -/
theorem Ready.lookUp_some (hx : Ready c a x) (now : Nat) (hk : x.delta k = .start)
    (hfree : x.lockedBy = none) {state : SessionState}
    (hs : x.registry.sessions.lookup (sessionKey "default" "" c.sessionId) = some state) :
    Ready c a { x with
        registry := x.registry.bumpActivity now (sessionKey "default" "" c.sessionId)
        delta := Function.update x.delta k (.located state.transcript) } ∧
      ((∀ j, OnWay a (Function.update x.delta k (.located state.transcript) j)) ↔
        (∀ j, OnWay a (x.delta j)) ∧ ¬ Loses c a x .start) := by
  have howned : x.registry.owned c.sessionId = some state.transcript :=
    congrArg (Option.map SessionState.transcript) hs
  refine ⟨hx.of_delta (bumpActivity_holdWired _ _ _) ?_ (owned_bumpActivity _ _ _ _) ?_
    fun _ => hfree, onWay_update ?_⟩
  · unfold heldFor
    rw [bumpActivity_hold]
  · exact fun j hj => hx.lock j (missed_of_update (by simp) hj)
  · rw [hk]
    constructor
    · intro ha
      refine ⟨trivial, ?_⟩
      rintro ⟨-, -, a', ha', hne⟩
      rw [howned] at ha'
      exact hne ((Option.some.inj ha').symm.trans ha)
    · rintro ⟨-, hn⟩
      by_contra hne
      refine hn ⟨hfree, fun hd => hne ?_, state.transcript, howned, hne⟩
      exact Option.some.inj (howned.symm.trans (hx.published hd))

/-- A delta that finds the session unregistered keeps the lock. -/
theorem Ready.lookUp_none (hx : Ready c a x) (hk : x.delta k = .start) (hfree : x.lockedBy = none)
    (hs : x.registry.sessions.lookup (sessionKey "default" "" c.sessionId) = none) :
    Ready c a { x with lockedBy := some k, delta := Function.update x.delta k .missed } ∧
      ((∀ j, OnWay a (Function.update x.delta k .missed j)) ↔
        (∀ j, OnWay a (x.delta j)) ∧ ¬ Loses c a x .start) := by
  have howned : x.registry.owned c.sessionId = none :=
    congrArg (Option.map SessionState.transcript) hs
  refine ⟨hx.of_delta rfl rfl rfl (fun j hj => ?_) fun hd => ?_, onWay_update ?_⟩
  · by_cases hjk : j = k
    · rw [hjk]
    · rw [Function.update_of_ne hjk] at hj
      exact absurd ((hx.lock j hj).symm.trans hfree) (by simp)
  · exact absurd ((hx.published hd).symm.trans howned) (by simp)
  · rw [hk]
    refine ⟨fun _ => ⟨trivial, ?_⟩, fun _ => trivial⟩
    rintro ⟨-, -, a', ha', -⟩
    exact absurd (howned.symm.trans ha') (by simp)

/-- A delta that takes the hold lock finds `a` unless the registering thread took it out. -/
theorem Ready.takeHeld (hx : Ready c a x) (holdNow : Nat) (hk : x.delta k = .missed) :
    Ready c a { x with
        registry := (x.registry.heldArc holdNow c.sessionId).1
        lockedBy := none
        delta := Function.update x.delta k
          ((x.registry.heldArc holdNow c.sessionId).2.elim .dropped .located) } ∧
      ((∀ j, OnWay a (Function.update x.delta k
          ((x.registry.heldArc holdNow c.sessionId).2.elim .dropped .located) j)) ↔
        (∀ j, OnWay a (x.delta j)) ∧ ¬ Loses c a x .missed) := by
  have honly : ∀ j, x.delta j = .missed → j = k := fun j hj =>
    Option.some.inj ((hx.lock j hj).symm.trans (hx.lock k hk))
  refine ⟨hx.of_delta (heldArc_holdWired _ _ _) (heldFor_heldArc _ _ _) ?_ (fun j hj => ?_)
    fun _ => rfl, onWay_update ?_⟩
  · unfold owned
    rw [heldArc_sessions]
  · have hne : (x.registry.heldArc holdNow c.sessionId).2.elim DeltaPc.dropped DeltaPc.located ≠
        .missed := by
      cases (x.registry.heldArc holdNow c.sessionId).2 <;> simp
    rw [honly j (missed_of_update hne hj), Function.update_self] at hj
    exact absurd hj hne
  · rw [hk, heldArc_snd hx.wired holdNow c.sessionId]
    by_cases hr : x.register = .start
    · rw [hx.held hr]
      exact ⟨fun _ => ⟨trivial, fun hn => hn hr⟩, fun _ => rfl⟩
    · rw [hx.taken hr]
      exact ⟨fun h => absurd h id, fun h => absurd hr h.2⟩

/-- A delta's step keeps the invariant; it stays on its way unless it strays. -/
theorem Ready.stepDelta (hx : Ready c a x) (now holdNow : Nat) (k : Fin n) :
    Ready c a (stepDelta c x now holdNow k) ∧
      ((∀ j, OnWay a ((stepDelta c x now holdNow k).delta j)) ↔
        (∀ j, OnWay a (x.delta j)) ∧ ¬ Loses c a x (x.delta k)) := by
  unfold SessionRegistry.stepDelta
  cases hk : x.delta k with
  | start =>
    dsimp only
    by_cases hfree : x.lockedBy = none
    · rw [if_pos hfree]
      cases hs : x.registry.sessions.lookup (sessionKey "default" "" c.sessionId) with
      | some state => exact hx.lookUp_some now hk hfree hs
      | none => exact hx.lookUp_none hk hfree hs
    · rw [if_neg hfree]
      refine ⟨hx, ⟨fun h => ⟨h, fun hn => hfree hn.1⟩, fun h => h.1⟩⟩
  | missed => exact hx.takeHeld holdNow hk
  | located a' =>
    dsimp only
    refine ⟨hx.of_delta rfl rfl rfl (fun j hj => hx.lock j (missed_of_update (by simp) hj)) hx.free,
      onWay_update ?_⟩
    rw [hk]
    exact ⟨fun h => ⟨h, id⟩, fun h => h.1⟩
  | merged a' => exact ⟨hx, ⟨fun h => ⟨h, id⟩, fun h => h.1⟩⟩
  | dropped => exact ⟨hx, ⟨fun h => ⟨h, id⟩, fun h => h.1⟩⟩

end Delta

/-- **One step of the race**: after it the deltas are on their way iff they were before it and the
step does not stray. -/
theorem Ready.step {x : Race n} (hx : Ready c a x) (hne : c.featureCycle ≠ "") (t : Turn n) :
    Ready c a (stepRace c x t) ∧
      ((∀ k, OnWay a ((stepRace c x t).delta k)) ↔
        (∀ k, OnWay a (x.delta k)) ∧ ¬ Strays c a x t) := by
  obtain ⟨thread, now, holdNow⟩ := t
  cases thread with
  | none =>
    obtain ⟨hready, hdelta⟩ := hx.stepRegister hne now
    refine ⟨hready, ?_⟩
    show (∀ k, OnWay a ((SessionRegistry.stepRegister c x now).delta k)) ↔ _
    rw [hdelta]
    refine ⟨fun h => ⟨h, ?_⟩, fun h => h.1⟩
    rintro ⟨k, hk, -⟩
    exact absurd hk (by simp)
  | some k =>
    obtain ⟨hready, hiff⟩ := hx.stepDelta now holdNow k
    refine ⟨hready, hiff.trans (and_congr_right fun _ => not_congr ⟨fun h => ⟨k, rfl, h⟩, ?_⟩)⟩
    rintro ⟨j, hj, h⟩
    obtain rfl := Option.some.inj hj
    exact h

/-- No step of the schedule strays. -/
def NeverStrays (c : RaceCalls n) (a : ArcId) (x : Race n) : List (Turn n) → Prop
  | [] => True
  | t :: ts => ¬ Strays c a x t ∧ NeverStrays c a (stepRace c x t) ts

/-- **A race**: at its end the deltas are on their way iff no step strayed. -/
theorem Ready.run {x : Race n} (hx : Ready c a x) (hne : c.featureCycle ≠ "")
    (ts : List (Turn n)) :
    Ready c a (runRace c x ts) ∧
      ((∀ k, OnWay a ((runRace c x ts).delta k)) ↔
        (∀ k, OnWay a (x.delta k)) ∧ NeverStrays c a x ts) := by
  induction ts generalizing x with
  | nil => exact ⟨hx, ⟨fun h => ⟨h, trivial⟩, fun h => h.1⟩⟩
  | cons t ts ih =>
    obtain ⟨hx', hstep⟩ := hx.step hne t
    obtain ⟨hrun, hiff⟩ := ih hx'
    refine ⟨hrun, hiff.trans ?_⟩
    rw [hstep, and_assoc]
    rfl

end Invariant

/-! ## Every delta is merged, or one strayed -/

/-- The thread has returned. -/
def DeltaPc.Finished : DeltaPc → Prop
  | .merged _ => True
  | .dropped => True
  | _ => False

/-- **When every delta reaches the buffer the session ends up with.** A buffer is held for the session
under the registering cycle (a held cycle is never empty). For every schedule of the registration
with any number of deltas after which all have returned, the session owns the held buffer, and every
delta was merged into it iff no step of the schedule strayed. -/
theorem all_merged_iff {n : Nat} (c : RaceCalls n) (r : SessionRegistry) (h : HeldBuffer)
    (hw : r.holdWired = true) (hheld : r.hold.held.lookup c.sessionId = some h)
    (hcycle : h.featureCycle = c.featureCycle) (hne : c.featureCycle ≠ "") (ts : List (Turn n))
    (hreg : (runRace c (startRace r) ts).register = .done)
    (hdone : ∀ k, ((runRace c (startRace r) ts).delta k).Finished) :
    ∃ state, (runRace c (startRace r) ts).registry.sessions.lookup c.sessionId = some state ∧
      state.transcript = h.arc ∧
      ((∀ k, (runRace c (startRace r) ts).delta k = .merged state.transcript) ↔
        NeverStrays c h.arc (startRace r) ts) := by
  have hstart : Ready c h.arc (startRace r : Race n) :=
    { wired := hw
      held := fun _ => by
        show (r.hold.held.lookup c.sessionId).map _ = _
        rw [hheld, ← hcycle]
        rfl
      taken := fun hs => absurd rfl hs
      acquired := fun a hs => absurd hs (by simp [startRace])
      published := fun hs => absurd hs (by simp [startRace])
      lock := fun k hs => absurd hs (by simp [startRace])
      free := fun _ => rfl }
  obtain ⟨hrun, hiff⟩ := hstart.run hne ts
  obtain ⟨state, hlook, harc⟩ := Option.map_eq_some_iff.mp (hrun.published hreg)
  refine ⟨state, hlook, harc, ?_⟩
  rw [harc, ← true_and (NeverStrays c h.arc (startRace r) ts),
    ← (iff_true_intro fun _ => trivial : (∀ k, OnWay h.arc ((startRace r : Race n).delta k)) ↔ True),
    ← hiff]
  refine forall_congr' fun k => ?_
  have hfin := hdone k
  cases hk : (runRace c (startRace r) ts).delta k with
  | merged a => exact ⟨fun ha => DeltaPc.merged.inj ha, fun ha => congrArg DeltaPc.merged ha⟩
  | dropped => exact ⟨fun ha => absurd ha (by simp), fun ha => absurd ha id⟩
  | start => rw [hk] at hfin; exact absurd hfin id
  | missed => rw [hk] at hfin; exact absurd hfin id
  | located a => rw [hk] at hfin; exact absurd hfin id

/-- A registry that holds the buffer of the drained session `s`, with one byte, under cycle `c`. -/
def drainedRegistry : SessionRegistry :=
  let call : RegistryCall → RegistryEvent := fun call => ⟨call, 0, 0, .stored, .stored, .stored⟩
  (new 16 .empty true 8).run
    [call (.registerSession "s" none (some "c")), call (.applyTranscriptDelta "s" 0 [97]),
      call (.drainAndSignalSession "s" "success")]

/-- One delta against the registration of `s` under `c`. -/
def oneDelta : RaceCalls 1 := ⟨"s", none, "c", fun _ => (1, [98])⟩

/-- The threads that step, in order. -/
def schedule (threads : List (Option (Fin 1))) : List (Turn 1) := threads.map fun t => ⟨t, 1, 1⟩

/-- The theorem above at a delta that takes the hold lock before the registration does. -/
theorem all_merged_iff_before :
    ∃ state, (runRace oneDelta (startRace drainedRegistry)
        (schedule [some 0, some 0, none, some 0, none])).registry.sessions.lookup "s" =
        some state ∧
      state.transcript = 0 ∧
      ((∀ k, (runRace oneDelta (startRace drainedRegistry)
          (schedule [some 0, some 0, none, some 0, none])).delta k =
          .merged state.transcript) ↔
        NeverStrays oneDelta 0 (startRace drainedRegistry)
          (schedule [some 0, some 0, none, some 0, none])) :=
  all_merged_iff oneDelta drainedRegistry ⟨0, "c", 0⟩ rfl rfl rfl (by decide)
    (schedule [some 0, some 0, none, some 0, none]) rfl fun k => by
      rw [Subsingleton.elim k 0]
      exact trivial

/-- The registration takes the buffer out; the delta misses the session in the registry, then in the
hold, and is dropped; then the session is published. -/
theorem delta_dropped :
    drainedRegistry.hold.held.lookup "s" = some ⟨0, "c", 0⟩ ∧
    (runRace oneDelta (startRace drainedRegistry)
      (schedule [none, some 0, some 0, none])).register = .done ∧
    (runRace oneDelta (startRace drainedRegistry)
      (schedule [none, some 0, some 0, none])).registry.owned "s" = some 0 ∧
    (runRace oneDelta (startRace drainedRegistry)
      (schedule [none, some 0, some 0, none])).delta 0 = .dropped := by
  refine ⟨rfl, rfl, rfl, rfl⟩

end Unimatrix.SessionRegistry
