import Unimatrix.Store.Lifecycle

/-!
# Runs of the lifecycle

What every run of the five operations keeps, when its calls pass the handlers' guards
(`LifecycleOp.Guarded`): `LifeInv` says that each life is sound and that the links are inverse, and a
step keeps it (`LifeStep.inv`).

* **`quarantined_from`**: the status written down is the one the entry had when it was quarantined.
* **`run_corrected_nodup`**: no entry is corrected twice.
* **`lifecycle_invariant`** puts them together; `unguarded_restore_breaks`: a restore that skips the
  guard brings a corrected entry back.
-/

namespace Unimatrix

open Txn

/-! ## The invariant -/

/-- What holds of each life: the status left behind is written down exactly in quarantine, it is a
status one can go back to, and an entry with a successor is deprecated, or will be again. -/
structure Life.Sound (l : Life) : Prop where
  noted : l.preQ.isSome ↔ l.status = .quarantined
  left : ∀ v, l.preQ = some v → ∃ st, st ≠ .quarantined ∧ v = Status.toU8 st
  superseded : l.supersededBy.isSome → l.status = .deprecated ∨
    l.preQ = some Status.deprecated.toU8

/-- The predecessor of an entry. -/
def predecessor (L : Nat → Option Life) (b : Nat) : Option Nat := (L b).bind Life.supersedes

/-- The successor of an entry. -/
def successor (L : Nat → Option Life) (a : Nat) : Option Nat := (L a).bind Life.supersededBy

/-- What holds of the lives together: each is sound, and the links are inverse to each other. -/
structure LifeInv (L : Nat → Option Life) : Prop where
  sound : ∀ id l, L id = some l → l.Sound
  inverse : ∀ a b, predecessor L b = some a ↔ successor L a = some b

theorem Life.Sound.restoreTo_eq {l : Life} (h : l.Sound) {v : UInt8} (hv : l.preQ = some v) :
    Store.restoreTo l.preQ ≠ .quarantined ∧ v = (Store.restoreTo l.preQ).toU8 := by
  obtain ⟨st, hne, rfl⟩ := h.left v hv
  have hst : Store.restoreTo l.preQ = st := by simp [Store.restoreTo, hv]
  rw [hst]
  exact ⟨hne, rfl⟩

theorem Life.Sound.quarantined {l : Life} (h : l.Sound) (hq : l.status = .quarantined) :
    l.preQ = some (Store.restoreTo l.preQ).toU8 ∧ Store.restoreTo l.preQ ≠ .quarantined := by
  obtain ⟨v, hv⟩ := Option.isSome_iff_exists.mp (h.noted.mpr hq)
  obtain ⟨hne, heq⟩ := h.restoreTo_eq hv
  exact ⟨hv.trans (congrArg some heq), hne⟩

/-- Outside quarantine, an entry with a successor is deprecated. -/
theorem Life.Sound.successor_none {l : Life} (h : l.Sound) (hd : l.status ≠ .deprecated)
    (hq : l.status ≠ .quarantined) : l.supersededBy = none := by
  by_contra hne
  rcases h.superseded (Option.isSome_iff_ne_none.mpr hne) with hst | hpre
  · exact hd hst
  · exact hq (h.noted.mp (by rw [hpre]; rfl))

theorem Life.Sound.deprecate (l : Life) : (l.withStatus .deprecated).Sound where
  noted := by simp [withStatus]
  left := by simp [withStatus]
  superseded := fun _ => .inl rfl

theorem Life.Sound.quarantine {l : Life} (h : l.Sound) (hq : l.status ≠ .quarantined) :
    (l.withStatus .quarantined).Sound where
  noted := by simp [withStatus]
  left := by
    intro v hv
    simp only [withStatus, if_true, Option.some.injEq] at hv
    exact ⟨l.status, hq, hv.symm⟩
  superseded := by
    intro hs
    right
    rcases h.superseded hs with hst | hpre
    · simp [withStatus, hst]
    · exact absurd (h.noted.mp (by rw [hpre]; rfl)) hq

theorem Life.Sound.restore {l : Life} (h : l.Sound) (hq : l.status = .quarantined) :
    (l.withStatus (Store.restoreTo l.preQ)).Sound := by
  obtain ⟨hpre, hne⟩ := h.quarantined hq
  refine ⟨by simp [withStatus, hne], by simp [withStatus, hne], fun hs => ?_⟩
  left
  rcases h.superseded hs with hst | hdep
  · rw [hst] at hq
    cases hq
  · rw [hdep]
    rfl

theorem sound_update {L : Nat → Option Life} (h : ∀ id l, L id = some l → l.Sound) {id : Nat}
    {l' : Life} (hl' : l'.Sound) :
    ∀ i l, Function.update L id (some l') i = some l → l.Sound := by
  intro i l hi
  rw [Function.update_apply] at hi
  split at hi
  · cases hi
    exact hl'
  · exact h i l hi

/-- **A step keeps every life sound.** -/
theorem LifeStep.sound {L L' : Nat → Option Life} (h : LifeStep L L')
    (hs : ∀ id l, L id = some l → l.Sound) : ∀ id l, L' id = some l → l.Sound := by
  have fresh : ∀ st sup, st ≠ Status.quarantined → (⟨st, none, sup, none⟩ : Life).Sound := by
    intro st sup hst
    exact ⟨by simp [hst], by simp, by simp⟩
  cases h with
  | same h => rwa [h]
  | created id st _ hst h =>
    rw [h]
    exact sound_update hs (fresh st none hst)
  | corrected old new l st hl hd hq _ hst h =>
    rw [h]
    have hl' := hs old l hl
    have hpre : l.preQ = none := by
      have hno : ¬ l.preQ.isSome := fun hsome => hq (hl'.noted.mp hsome)
      simpa using hno
    refine sound_update (sound_update hs ⟨?_, ?_, fun _ => .inl rfl⟩) (fresh st (some old) hst)
    · simp [hpre]
    · simp [hpre]
  | deprecated id l hl h =>
    rw [h]
    exact sound_update hs (Life.Sound.deprecate l)
  | quarantined id l hl hq h =>
    rw [h]
    exact sound_update hs ((hs id l hl).quarantine hq)
  | restored id l hl hq h =>
    rw [h]
    exact sound_update hs ((hs id l hl).restore hq)

/-! ### The links -/

theorem predecessor_of_some {L : Nat → Option Life} {id : Nat} {l : Life} (h : L id = some l) :
    predecessor L id = l.supersedes := by
  unfold predecessor
  rw [h]
  rfl

theorem predecessor_of_none {L : Nat → Option Life} {id : Nat} (h : L id = none) : predecessor L id = none := by
  unfold predecessor
  rw [h]
  rfl

theorem successor_of_some {L : Nat → Option Life} {id : Nat} {l : Life} (h : L id = some l) :
    successor L id = l.supersededBy := by
  unfold successor
  rw [h]
  rfl

theorem successor_of_none {L : Nat → Option Life} {id : Nat} (h : L id = none) : successor L id = none := by
  unfold successor
  rw [h]
  rfl

theorem predecessor_update (L : Nat → Option Life) (id : Nat) (l : Life) :
    predecessor (Function.update L id (some l)) =
      Function.update (predecessor L) id l.supersedes := by
  funext b
  unfold predecessor
  rw [Function.update_apply, Function.update_apply]
  split <;> rfl

theorem successor_update (L : Nat → Option Life) (id : Nat) (l : Life) :
    successor (Function.update L id (some l)) =
      Function.update (successor L) id l.supersededBy := by
  funext a
  unfold successor
  rw [Function.update_apply, Function.update_apply]
  split <;> rfl

/-- A change of status leaves the links. -/
theorem links_withStatus {L : Nat → Option Life} {id : Nat} {l : Life} (hl : L id = some l)
    (new : Status) :
    predecessor (Function.update L id (some (l.withStatus new))) = predecessor L ∧
      successor (Function.update L id (some (l.withStatus new))) = successor L := by
  rw [predecessor_update, successor_update]
  exact ⟨Function.update_eq_self_iff.mpr (predecessor_of_some hl).symm,
    Function.update_eq_self_iff.mpr (successor_of_some hl).symm⟩

/-- Two inverse links stay inverse when a pair is added to both. -/
theorem inverse_extend {f g : Nat → Option Nat} (h : ∀ a b, f b = some a ↔ g a = some b)
    {old new : Nat} (hf : f new = none) (hg : g old = none) :
    ∀ a b, Function.update f new (some old) b = some a ↔
      Function.update g old (some new) a = some b := by
  intro a b
  rw [Function.update_apply, Function.update_apply]
  split
  · rename_i hb
    split
    · rename_i ha
      rw [ha, hb]
      exact iff_of_true rfl rfl
    · rename_i ha
      refine iff_of_false (fun h => ha (Option.some.inj h).symm) fun hga => ?_
      rw [← h a b, hb, hf] at hga
      cases hga
  · rename_i hb
    split
    · rename_i ha
      refine iff_of_false (fun hfb => ?_) fun h => hb (Option.some.inj h).symm
      rw [h a b, ha, hg] at hfb
      cases hfb
    · exact h a b

/-- **A step keeps the links inverse.** -/
theorem LifeStep.inverse {L L' : Nat → Option Life} (h : LifeStep L L') (hi : LifeInv L) :
    ∀ a b, predecessor L' b = some a ↔ successor L' a = some b := by
  cases h with
  | same h => rw [h]; exact hi.inverse
  | created id st hnone _ h =>
    have hp : predecessor L' = predecessor L := by
      rw [h, predecessor_update]
      exact Function.update_eq_self_iff.mpr (predecessor_of_none hnone).symm
    have hs : successor L' = successor L := by
      rw [h, successor_update]
      exact Function.update_eq_self_iff.mpr (successor_of_none hnone).symm
    rw [hp, hs]
    exact hi.inverse
  | corrected old new l st hl hd hq hnone _ h =>
    have hne : old ≠ new := fun heq => by
      rw [heq, hnone] at hl
      cases hl
    have hp : predecessor L' = Function.update (predecessor L) new (some old) := by
      rw [h, predecessor_update, predecessor_update]
      refine congrArg (fun f : Nat → Option Nat => Function.update f new (some old)) ?_
      exact Function.update_eq_self_iff.mpr (predecessor_of_some hl).symm
    have hs : successor L' = Function.update (successor L) old (some new) := by
      rw [h, successor_update, successor_update]
      refine Function.update_eq_self_iff.mpr ?_
      rw [Function.update_of_ne hne.symm]
      exact (successor_of_none hnone).symm
    rw [hp, hs]
    have hlast : l.supersededBy = none := (hi.sound old l hl).successor_none hd hq
    exact inverse_extend hi.inverse (predecessor_of_none hnone) ((successor_of_some hl).trans hlast)
  | deprecated id l hl h =>
    obtain ⟨hp, hs⟩ := links_withStatus hl .deprecated
    rw [h, hp, hs]
    exact hi.inverse
  | quarantined id l hl _ h =>
    obtain ⟨hp, hs⟩ := links_withStatus hl .quarantined
    rw [h, hp, hs]
    exact hi.inverse
  | restored id l hl _ h =>
    obtain ⟨hp, hs⟩ := links_withStatus hl (Store.restoreTo l.preQ)
    rw [h, hp, hs]
    exact hi.inverse

theorem LifeStep.inv {L L' : Nat → Option Life} (h : LifeStep L L') (hi : LifeInv L) : LifeInv L' :=
  ⟨h.sound hi.sound, h.inverse hi⟩

theorem empty_lifeInv : LifeInv Store.empty.lives where
  sound := fun id l h => by cases h
  inverse := fun a b => by
    have hnone : ∀ id, Store.empty.lives id = none := fun _ => rfl
    simp [predecessor, successor, hnone]

/-! ### What a step leaves -/

/-- A quarantined entry was quarantined before, or the step quarantined it. -/
theorem LifeStep.quarantined_before {L L' : Nat → Option Life} (h : LifeStep L L') (hi : LifeInv L)
    {id : Nat} {l' : Life} (hl' : L' id = some l') (hq' : l'.status = .quarantined) :
    L id = some l' ∨ ∃ l, L id = some l ∧ l.status ≠ .quarantined ∧
      l'.preQ = some l.status.toU8 := by
  cases h with
  | same h =>
    rw [h] at hl'
    exact .inl hl'
  | created i st _ hst h =>
    rw [h, Function.update_apply] at hl'
    split at hl'
    · cases hl'
      exact absurd hq' hst
    · exact .inl hl'
  | corrected old new l st _ _ _ _ hst h =>
    rw [h, Function.update_apply] at hl'
    split at hl'
    · cases hl'
      exact absurd hq' hst
    · rw [Function.update_apply] at hl'
      split at hl'
      · cases hl'
        cases hq'
      · exact .inl hl'
  | deprecated i l _ h =>
    rw [h, Function.update_apply] at hl'
    split at hl'
    · cases hl'
      cases hq'
    · exact .inl hl'
  | quarantined i l hl hq h =>
    rw [h, Function.update_apply] at hl'
    split at hl'
    · rename_i heq
      cases hl'
      exact .inr ⟨l, heq ▸ hl, hq, rfl⟩
    · exact .inl hl'
  | restored i l hl hq h =>
    rw [h, Function.update_apply] at hl'
    split at hl'
    · cases hl'
      exact absurd hq' ((hi.sound i l hl).quarantined hq).2
    · exact .inl hl'

/-- A successor, once there, stays. -/
theorem LifeStep.successor_stays {L L' : Nat → Option Life} (h : LifeStep L L')
    {a : Nat} (ha : (successor L a).isSome) : (successor L' a).isSome := by
  obtain ⟨b, hb⟩ := Option.isSome_iff_exists.mp ha
  have stays : ∀ {i : Nat} {l : Life} (new : Status), L i = some l →
      L' = Function.update L i (some (l.withStatus new)) → (successor L' a).isSome := by
    intro i l new hl h
    rw [h, (links_withStatus hl new).2]
    exact ha
  cases h with
  | same h =>
    rw [h]
    exact ha
  | created i st hnone _ h =>
    have hne : a ≠ i := fun heq => by
      rw [heq, successor, hnone] at hb
      cases hb
    rw [h, successor_update, Function.update_of_ne hne]
    exact ha
  | corrected old new l st hl hd hq hnone _ h =>
    have hnew : a ≠ new := fun heq => by
      rw [heq, successor, hnone] at hb
      cases hb
    rw [h, successor_update, successor_update, Function.update_of_ne hnew, Function.update_apply]
    split
    · rfl
    · exact ha
  | deprecated i l hl h => exact stays .deprecated hl h
  | quarantined i l hl _ h => exact stays .quarantined hl h
  | restored i l hl _ h => exact stays (Store.restoreTo l.preQ) hl h

/-! ## Runs -/

namespace Lifecycle

theorem run_concat (sha256 : Digest) (events : List (Event LifecycleOp)) (e : Event LifecycleOp) :
    run sha256 (events ++ [e]) = (run sha256 events).step sha256 e := by
  unfold run
  rw [List.foldl_append]
  rfl

/-- The lives after a run. -/
def livesAfter (sha256 : Digest) (events : List (Event LifecycleOp)) : Nat → Option Life :=
  (run sha256 events).store.lives

/-- The calls of a run pass the handlers' guards. -/
def Guarded (events : List (Event LifecycleOp)) : Prop := ∀ e ∈ events, e.op.Guarded

theorem Guarded.init {events : List (Event LifecycleOp)} {e : Event LifecycleOp}
    (h : Guarded (events ++ [e])) : Guarded events ∧ e.op.Guarded :=
  ⟨fun e he => h e (List.mem_append_left _ he), h e (by simp)⟩

theorem livesAfter_concat (sha256 : Digest) (events : List (Event LifecycleOp))
    {e : Event LifecycleOp} (h : e.op.Guarded) :
    LifeStep (livesAfter sha256 events) (livesAfter sha256 (events ++ [e])) := by
  unfold livesAfter
  rw [run_concat]
  exact (LifecycleOp.exec_lifeStep sha256 e.now ⟨(run sha256 events).store, e.fault⟩ h).1

/-- **A guarded run keeps the invariant.** -/
theorem run_lifeInv (sha256 : Digest) {events : List (Event LifecycleOp)} (h : Guarded events) :
    LifeInv (livesAfter sha256 events) := by
  induction events using List.reverseRecOn with
  | nil => exact empty_lifeInv
  | append_singleton events e ih =>
    obtain ⟨hinit, he⟩ := h.init
    exact (livesAfter_concat sha256 _ he).inv (ih hinit)

/-- The entry had status `st` when a call of the run quarantined it, and has been in quarantine
since. -/
def QuarantinedFrom (sha256 : Digest) (events : List (Event LifecycleOp)) (id : Nat) (st : Status) :
    Prop :=
  ∃ before e after, events = before ++ e :: after ∧ st ≠ .quarantined ∧
    (livesAfter sha256 before id).map Life.status = some st ∧
    ∀ mid, mid <+: after →
      (livesAfter sha256 (before ++ e :: mid) id).map Life.status = some .quarantined

theorem QuarantinedFrom.extend {sha256 : Digest} {events : List (Event LifecycleOp)} {id : Nat}
    {st : Status} (h : QuarantinedFrom sha256 events id st) {e : Event LifecycleOp}
    (hq : (livesAfter sha256 (events ++ [e]) id).map Life.status = some .quarantined) :
    QuarantinedFrom sha256 (events ++ [e]) id st := by
  obtain ⟨before, e₀, after, heq, hne, hst, hmid⟩ := h
  refine ⟨before, e₀, after ++ [e], by rw [heq]; simp, hne, hst, fun mid hm => ?_⟩
  rcases List.prefix_concat_iff.mp hm with hall | hm
  · rw [hall]
    rw [heq] at hq
    simpa using hq
  · exact hmid mid hm

/-- **The status written down is the one the entry had when it was quarantined.** -/
theorem quarantined_from (sha256 : Digest) {events : List (Event LifecycleOp)} (h : Guarded events)
    {id : Nat} {l : Life} (hl : livesAfter sha256 events id = some l)
    (hq : l.status = .quarantined) :
    ∃ st, l.preQ = some (Status.toU8 st) ∧ QuarantinedFrom sha256 events id st := by
  induction events using List.reverseRecOn with
  | nil => cases hl
  | append_singleton events e ih =>
    obtain ⟨hinit, he⟩ := h.init
    have hnow : (livesAfter sha256 (events ++ [e]) id).map Life.status = some .quarantined := by
      rw [hl, Option.map_some, hq]
    rcases (livesAfter_concat sha256 _ he).quarantined_before (run_lifeInv sha256 hinit) hl hq with
      hbefore | ⟨l₀, hl₀, hne, hpre⟩
    · obtain ⟨st, hst, hfrom⟩ := ih hinit hbefore
      exact ⟨st, hst, hfrom.extend hnow⟩
    · refine ⟨l₀.status, hpre, events, e, [], rfl, hne, by rw [hl₀, Option.map_some], ?_⟩
      intro mid hm
      rw [List.prefix_nil.mp hm]
      exact hnow

/-- **No entry is corrected twice.** -/
theorem run_corrected_nodup (sha256 : Digest) {events : List (Event LifecycleOp)}
    (h : Guarded events) : (run sha256 events).corrected.Nodup ∧
      ∀ a ∈ (run sha256 events).corrected, (successor (livesAfter sha256 events) a).isSome := by
  induction events using List.reverseRecOn with
  | nil => exact ⟨List.nodup_nil, fun a ha => absurd ha List.not_mem_nil⟩
  | append_singleton events e ih =>
    obtain ⟨hinit, he⟩ := h.init
    obtain ⟨hnodup, hsucc⟩ := ih hinit
    have hinv := run_lifeInv sha256 hinit
    have hlives := livesAfter_concat sha256 events he
    obtain ⟨-, hcorr⟩ := LifecycleOp.exec_lifeStep sha256 e.now
      ⟨(run sha256 events).store, e.fault⟩ he
    have hlast : (run sha256 (events ++ [e])).corrected = (run sha256 events).corrected ++
        (e.op.exec sha256 e.now ⟨(run sha256 events).store, e.fault⟩).1.toList := by
      rw [run_concat]
      rfl
    have hstep : livesAfter sha256 (events ++ [e]) =
        (e.op.exec sha256 e.now ⟨(run sha256 events).store, e.fault⟩).2.lives := by
      unfold livesAfter
      rw [run_concat]
      rfl
    have hold : ∀ a ∈ (run sha256 events).corrected,
        (successor (livesAfter sha256 (events ++ [e])) a).isSome :=
      fun a ha => hlives.successor_stays (hsucc a ha)
    rw [hlast]
    cases hr : (e.op.exec sha256 e.now ⟨(run sha256 events).store, e.fault⟩).1 with
    | none => simpa using ⟨hnodup, hold⟩
    | some a =>
      obtain ⟨l, l', hl, hd, hq, hl', hs⟩ := hcorr a hr
      have hnone : successor (livesAfter sha256 events) a = none :=
        (successor_of_some hl).trans ((hinv.sound a l hl).successor_none hd hq)
      have hfresh : a ∉ (run sha256 events).corrected := fun ha => by
        have := hsucc a ha
        rw [hnone] at this
        cases this
      refine ⟨List.nodup_append.mpr ⟨hnodup, List.nodup_singleton a, ?_⟩, fun b hb => ?_⟩
      · intro x hx y hy heq
        obtain rfl := List.mem_singleton.mp hy
        exact hfresh (heq ▸ hx)
      · rcases List.mem_append.mp hb with hb | hb
        · exact hold b hb
        · obtain rfl := List.mem_singleton.mp hb
          rw [hstep, successor_of_some hl']
          exact hs

/-- **The lifecycle.** In every run whose calls pass the handlers' guards: the status left behind is
written down exactly in quarantine, it is the one the entry had when it was quarantined, and a restore
that returns goes back to it; the links are inverse, no entry is corrected twice, and an entry with a
successor is neither active nor proposed. -/
theorem lifecycle_invariant (sha256 : Digest) (events : List (Event LifecycleOp))
    (h : ∀ e ∈ events, e.op.Guarded) :
    (∀ id row, (run sha256 events).store.entries.lookup id = some row →
      (row.preQuarantineStatus.isSome ↔ row.status = .quarantined) ∧
      (row.status = .quarantined → ∃ st, row.preQuarantineStatus = some (Status.toU8 st) ∧
        QuarantinedFrom sha256 events id st) ∧
      (row.supersededBy.isSome → row.status ≠ .active ∧ row.status ≠ .proposed)) ∧
    (∀ id indexed newDataId reason agentId now fault changed c',
      Store.contextQuarantine id (.restore indexed newDataId) reason agentId now
          ⟨(run sha256 events).store, fault⟩ = (.ok changed, c') →
      ∃ st row, QuarantinedFrom sha256 events id st ∧ changed.record.status = st ∧
        c'.db.entries.lookup id = some row ∧ row.status = st) ∧
    (∀ a b,
      (∃ row, (run sha256 events).store.entries.lookup b = some row ∧ row.supersedes = some a) ↔
      ∃ row, (run sha256 events).store.entries.lookup a = some row ∧ row.supersededBy = some b) ∧
    (run sha256 events).corrected.Nodup := by
  have hinv := run_lifeInv sha256 h
  refine ⟨fun id row hl => ?_, ?_, fun a b => ?_, (run_corrected_nodup sha256 h).1⟩
  · have hlife : livesAfter sha256 events id = some row.life := Store.lives_of_lookup hl
    have hsound := hinv.sound id row.life hlife
    refine ⟨hsound.noted, quarantined_from sha256 h hlife, fun hs => ?_⟩
    rcases hsound.superseded hs with hst | hpre
    · have hst' : row.status = .deprecated := hst
      rw [hst']
      exact ⟨by decide, by decide⟩
    · have hq : row.status = .quarantined := hsound.noted.mp (by rw [hpre]; rfl)
      rw [hq]
      exact ⟨by decide, by decide⟩
  · intro id indexed newDataId reason agentId now fault changed c' hc
    obtain ⟨-, hrec⟩ := Store.contextQuarantine_restore id indexed newDataId reason agentId now
      ⟨(run sha256 events).store, fault⟩
    rw [hc] at hrec
    obtain ⟨l, l', hl, hq, hst, hl', hst'⟩ := hrec changed rfl
    obtain ⟨st, hpre, hfrom⟩ := quarantined_from sha256 h hl hq
    have hto : Store.restoreTo l.preQ = st := by simp [Store.restoreTo, hpre]
    obtain ⟨row, hrow, hlife⟩ := Store.lives_eq_some.mp hl'
    refine ⟨st, row, hfrom, hst.trans hto, hrow, ?_⟩
    rw [← hto, ← hst', ← hlife]
    rfl
  · have hlink := hinv.inverse a b
    unfold predecessor successor livesAfter Store.lives at hlink
    simpa [Option.bind_eq_some_iff, EntryRow.life] using hlink

/-- A digest for the runs below. -/
def flatDigest : Digest := fun _ => Vector.replicate 32 0

/-- The entry the runs below store. -/
def lesson (status : Status) : NewEntry :=
  ⟨"title", "content", "topic", "category", [], "source", status, "agent", "", ""⟩

/-- An undisturbed call. -/
def calling (op : LifecycleOp) : Event LifecycleOp := ⟨op, 0, none⟩

/-- Store an entry, correct it, quarantine the original. -/
def quarantinedOriginal : List (Event LifecycleOp) :=
  [calling (.insert (lesson .active)), calling (.correctEntry 1 (lesson .active) 0 0),
    calling (.contextQuarantine 1 .quarantine none "admin")]

theorem lifecycle_invariant_quarantined :
    (∃ st, QuarantinedFrom flatDigest quarantinedOriginal 1 st) ∧
      (run flatDigest quarantinedOriginal).corrected.Nodup := by
  have hguard : ∀ e ∈ quarantinedOriginal, e.op.Guarded := by
    simp [quarantinedOriginal, calling, LifecycleOp.Guarded, lesson]
  obtain ⟨hrow, -, -, hnodup⟩ := lifecycle_invariant flatDigest quarantinedOriginal hguard
  have hst : ((run flatDigest quarantinedOriginal).store.entries.lookup 1).map EntryRow.status =
      some .quarantined := by decide +kernel
  obtain ⟨row, hl, hq⟩ := Option.map_eq_some_iff.mp hst
  obtain ⟨st, -, hfrom⟩ := (hrow 1 row hl).2.1 hq
  exact ⟨⟨st, hfrom⟩, hnodup⟩

/-- Store an entry, correct it, restore the original without the handler's guard, correct it again. -/
def restoredOriginal : List (Event LifecycleOp) :=
  [calling (.insert (lesson .active)), calling (.correctEntry 1 (lesson .active) 0 0),
    calling (.restoreWithAudit 1 none "admin" true none),
    calling (.correctEntry 1 (lesson .active) 0 0)]

/-- Without the guard a corrected entry becomes active again and is corrected twice; and an entry
stored quarantined has no status to go back to. -/
theorem unguarded_restore_breaks :
    ¬ (∀ id row, (run flatDigest (restoredOriginal.take 3)).store.entries.lookup id = some row →
        row.supersededBy.isSome → row.status ≠ .active ∧ row.status ≠ .proposed) ∧
      ¬ (run flatDigest restoredOriginal).corrected.Nodup ∧
      ¬ (∀ id row, (run flatDigest [calling (.insert (lesson .quarantined))]).store.entries.lookup
          id = some row → (row.preQuarantineStatus.isSome ↔ row.status = .quarantined)) := by
  refine ⟨fun h => ?_, by decide +kernel, fun h => ?_⟩
  · have hl : ((run flatDigest (restoredOriginal.take 3)).store.entries.lookup 1).map
        (fun row => (row.supersededBy, row.status)) = some (some 2, .active) := by decide +kernel
    obtain ⟨row, hl, heq⟩ := Option.map_eq_some_iff.mp hl
    obtain ⟨hs, hst⟩ := Prod.mk.inj heq
    exact (h 1 row hl (by rw [hs]; rfl)).1 hst
  · have hl : ((run flatDigest [calling (.insert (lesson .quarantined))]).store.entries.lookup 1).map
        (fun row => (row.preQuarantineStatus, row.status)) = some (none, .quarantined) := by
      decide +kernel
    obtain ⟨row, hl, heq⟩ := Option.map_eq_some_iff.mp hl
    obtain ⟨hp, hst⟩ := Prod.mk.inj heq
    have hsome := (h 1 row hl).mpr hst
    rw [hp] at hsome
    cases hsome

end Lifecycle

end Unimatrix
