import Unimatrix.Lib.HashMap
import Unimatrix.Lib.Runs

/-!
# The rate limiter

Model of `RateLimiter`, `check_search_rate` and `check_write_rate` of `gateway.rs`.

* An `Instant` is a number of nanoseconds. Every call comes with the time it is made at; the lock makes it one step.
* The deque of a caller is a list, the oldest timestamp first. A call that fails its `expect` has panicked, with what
  it did to the deque before, since the lock is recovered.
* A run records the calls and their outcomes (`Served.log`).

Searches and writes of a caller share one deque. So the deque holds what was accepted of both in the window
(`Inv.kept`), and a call is compared with the sum: **`rateLimiting`** says in which runs that makes no difference. That
no interval sees more of a kind accepted than its limit is true in all of them (`serve_inv`).
-/

namespace Unimatrix.RateLimit

open Runs

/-! ## The code -/

/-- `CallerId`. -/
inductive CallerId where
  | agent (id : String)
  | udsSession (id : String)
  | httpBearer (id : String)
  deriving DecidableEq, Repr

/-- `matches!(caller, CallerId::UdsSession(_))`. -/
def CallerId.isUds : CallerId → Bool
  | udsSession _ => true
  | _ => false

/-- The configuration of a `RateLimiter`. -/
structure RateLimiter where
  searchLimit : UInt32
  writeLimit : UInt32
  windowSecs : UInt64
  deriving DecidableEq, Repr

/-- `windows`: the timestamps of every caller. -/
abbrev Windows : Type := HashMap CallerId (List Nat)

/-- What a check returns. -/
inductive Outcome where
  | accepted
  | rateLimited (limit : UInt32) (windowSecs : UInt64) (retryAfterSecs : Nat)
  | panicked
  deriving DecidableEq, Repr

/-- `ServiceError::RateLimited`. -/
def Outcome.isRejected : Outcome → Bool
  | rateLimited .. => true
  | _ => false

/-- A second. -/
def nanosPerSec : Nat := 1000000000

namespace RateLimiter

variable (l : RateLimiter)

/-- `window_duration`. -/
def windowDuration : Nat := l.windowSecs.toNat * nanosPerSec

/-- The timestamps of a caller without the expired ones in front. -/
def evict (now : Nat) (timestamps : List Nat) : List Nat :=
  timestamps.dropWhile fun front => decide (l.windowDuration ≤ now - front)

/-- `check_rate`. -/
def checkRate (windows : Windows) (caller : CallerId) (limit : UInt32) (now : Nat) : Windows × Outcome :=
  if caller.isUds then (windows, .accepted)
  else
    let timestamps := l.evict now ((windows.lookup caller).getD [])
    if limit ≤ UInt32.ofNat timestamps.length then
      match timestamps.head? with
      | none => (windows.insert caller timestamps, .panicked)
      | some oldest =>
        (windows.insert caller timestamps,
          .rateLimited limit l.windowSecs ((l.windowDuration - (now - oldest)) / nanosPerSec))
    else (windows.insert caller (timestamps ++ [now]), .accepted)

/-- `check_search_rate`. -/
def checkSearchRate (windows : Windows) (caller : CallerId) (now : Nat) : Windows × Outcome :=
  l.checkRate windows caller l.searchLimit now

/-- `check_write_rate`. -/
def checkWriteRate (windows : Windows) (caller : CallerId) (now : Nat) : Windows × Outcome :=
  l.checkRate windows caller l.writeLimit now

end RateLimiter

/-! ## Runs -/

/-- Which of the two checks is called. -/
inductive Kind where
  | search
  | write
  deriving DecidableEq, Repr

/-- A call. -/
structure Call where
  caller : CallerId
  kind : Kind
  now : Nat
  deriving DecidableEq, Repr

/-- The windows, and the calls so far. -/
structure Served where
  windows : Windows
  log : List (Call × Outcome)

/-- Before any call. -/
def Served.start : Served := ⟨∅, []⟩

namespace RateLimiter

variable (l : RateLimiter)

/-- The limit of a kind. -/
def limit : Kind → UInt32
  | .search => l.searchLimit
  | .write => l.writeLimit

/-- The check that is called. -/
def check (windows : Windows) (c : Call) : Windows × Outcome :=
  match c.kind with
  | .search => l.checkSearchRate windows c.caller c.now
  | .write => l.checkWriteRate windows c.caller c.now

/-- One call. -/
def serve (s : Served) (c : Call) : Served :=
  let (windows, outcome) := l.check s.windows c
  ⟨windows, s.log ++ [(c, outcome)]⟩

end RateLimiter

/-- The accepted calls of a caller. -/
def acceptedOf (log : List (Call × Outcome)) (caller : CallerId) : List Call :=
  (log.filter fun e => e.2 == .accepted && e.1.caller == caller).map Prod.fst

/-- The accepted calls of a caller and a kind from `start` on, before `stop`. -/
def acceptedBetween (log : List (Call × Outcome)) (caller : CallerId) (kind : Kind) (start stop : Nat) : Nat :=
  (acceptedOf log caller).countP fun c => c.kind == kind && decide (start ≤ c.now) && decide (c.now < stop)

namespace RateLimiter

variable (l : RateLimiter)

/-- The accepted calls of a caller during the window before `now`. -/
def recent (log : List (Call × Outcome)) (caller : CallerId) (now : Nat) : List Call :=
  (acceptedOf log caller).filter fun c => decide (now - c.now < l.windowDuration)

/-- How many of them are of a kind. -/
def recentOf (log : List (Call × Outcome)) (caller : CallerId) (kind : Kind) (now : Nat) : Nat :=
  (l.recent log caller now).countP fun c => c.kind == kind

/-- A call does not panic, and is rejected iff its own kind is exhausted. -/
def Fair (s : Served) (c : Call) : Prop :=
  (l.check s.windows c).2 ≠ .panicked ∧
    ((l.check s.windows c).2.isRejected = true ↔
      (l.limit c.kind).toNat ≤ l.recentOf s.log c.caller c.kind c.now)

/-- In no window are more calls of a kind accepted than its limit. -/
def Bounded (log : List (Call × Outcome)) : Prop :=
  ∀ caller kind start, caller.isUds = false →
    acceptedBetween log caller kind start (start + l.windowDuration) ≤ (l.limit kind).toNat

/-- Where the searches and writes of the caller reach the limit together, those of the call's kind do alone; and they
are some. -/
def Apart (s : Served) (c : Call) : Prop :=
  (l.limit c.kind).toNat ≤ (l.recent s.log c.caller c.now).length →
    (l.limit c.kind).toNat ≤ l.recentOf s.log c.caller c.kind c.now ∧
      0 < (l.recent s.log c.caller c.now).length

end RateLimiter

/-! ## The deque of a caller -/

section Deque

variable (l : RateLimiter) {now : Nat} {timestamps : List Nat}

/-- In a deque in order the expired timestamps are in front. -/
theorem evict_eq_filter (h : timestamps.Pairwise (· ≤ ·)) :
    l.evict now timestamps = timestamps.filter fun t => decide (now - t < l.windowDuration) := by
  unfold RateLimiter.evict
  induction timestamps with
  | nil => rfl
  | cons t ts ih =>
    obtain ⟨ht, hts⟩ := List.pairwise_cons.mp h
    by_cases hexp : l.windowDuration ≤ now - t
    · rw [List.dropWhile_cons_of_pos (by simpa using hexp), ih hts,
        List.filter_cons_of_neg (by simpa using hexp)]
    · rw [List.dropWhile_cons_of_neg (by simpa using hexp), List.filter_eq_self.mpr]
      intro u hu
      have hle : t ≤ u := (List.mem_cons.mp hu).elim (fun heq => heq ▸ Nat.le_refl t) (ht u)
      rw [decide_eq_true_eq]
      omega

/-- What counts later counts now. -/
theorem filter_live_filter {later : Nat} (h : now ≤ later) (ts : List Nat) :
    (ts.filter fun t => decide (now - t < l.windowDuration)).filter
        (fun t => decide (later - t < l.windowDuration)) =
      ts.filter fun t => decide (later - t < l.windowDuration) := by
  rw [List.filter_filter]
  refine List.filter_congr fun t _ => ?_
  rw [Bool.eq_iff_iff, Bool.and_eq_true, decide_eq_true_eq, decide_eq_true_eq]
  omega

end Deque

/-! ## The invariant -/

/-- The deque of a caller. -/
def Served.deque (s : Served) (caller : CallerId) : List Nat := (s.windows.lookup caller).getD []

/-- When the accepted calls of a caller were made. -/
def acceptedTimes (log : List (Call × Outcome)) (caller : CallerId) : List Nat :=
  (acceptedOf log caller).map Call.now

theorem acceptedOf_concat (log : List (Call × Outcome)) (c : Call) (o : Outcome) (caller : CallerId) :
    acceptedOf (log ++ [(c, o)]) caller =
      acceptedOf log caller ++ if o = .accepted ∧ c.caller = caller then [c] else [] := by
  unfold acceptedOf
  rw [List.filter_append, List.map_append]
  congr 1
  by_cases h : o = .accepted ∧ c.caller = caller
  · simp [h]
  · rw [if_neg h, List.filter_cons_of_neg]
    · rfl
    · simpa using h

theorem mem_acceptedOf {log : List (Call × Outcome)} {caller : CallerId} {c : Call}
    (h : c ∈ acceptedOf log caller) : ∃ e ∈ log, e.1 = c := by
  obtain ⟨e, he, heq⟩ := List.mem_map.mp h
  exact ⟨e, (List.mem_filter.mp he).1, heq⟩

/-- The times of the accepted calls that count. -/
def RateLimiter.liveTimes (l : RateLimiter) (log : List (Call × Outcome)) (caller : CallerId) (now : Nat) :
    List Nat :=
  (acceptedTimes log caller).filter fun t => decide (now - t < l.windowDuration)

theorem map_recent (l : RateLimiter) (log : List (Call × Outcome)) (caller : CallerId) (now : Nat) :
    (l.recent log caller now).map Call.now = l.liveTimes log caller now := by
  unfold RateLimiter.recent RateLimiter.liveTimes acceptedTimes
  rw [List.filter_map]
  rfl

/-- The state after calls in order. -/
structure Inv (l : RateLimiter) (s : Served) : Prop where
  kept : ∀ caller, caller.isUds = false → ∀ now, (∀ e ∈ s.log, e.1.now ≤ now) →
    l.evict now (s.deque caller) = l.liveTimes s.log caller now
  ordered : ∀ caller, (acceptedTimes s.log caller).Pairwise (· ≤ ·)
  short : ∀ caller, (s.deque caller).length < 4294967296
  bounded : l.Bounded s.log

theorem Inv.start (l : RateLimiter) : Inv l Served.start where
  kept _ _ _ _ := rfl
  ordered _ := List.Pairwise.nil
  short _ := by
    show 0 < 4294967296
    decide
  bounded _ _ _ _ := Nat.zero_le _

section Step

variable {l : RateLimiter} {s : Served} {c : Call}

theorem Inv.live_short (h : Inv l s) (huds : c.caller.isUds = false) (hnow : ∀ e ∈ s.log, e.1.now ≤ c.now) :
    (l.liveTimes s.log c.caller c.now).length < 4294967296 := by
  rw [← h.kept c.caller huds c.now hnow]
  exact lt_of_le_of_lt (List.dropWhile_sublist _).length_le (h.short c.caller)

/-- **What a check does**: it compares the limit with what was accepted of both kinds in the window. -/
theorem check_cases (h : Inv l s) (huds : c.caller.isUds = false) (hnow : ∀ e ∈ s.log, e.1.now ≤ c.now) :
    ((l.limit c.kind).toNat ≤ (l.liveTimes s.log c.caller c.now).length ∧
        l.liveTimes s.log c.caller c.now = [] ∧
        l.check s.windows c = (s.windows.insert c.caller (l.liveTimes s.log c.caller c.now), .panicked)) ∨
      ((l.limit c.kind).toNat ≤ (l.liveTimes s.log c.caller c.now).length ∧
        l.liveTimes s.log c.caller c.now ≠ [] ∧
        ∃ retryAfterSecs, l.check s.windows c =
          (s.windows.insert c.caller (l.liveTimes s.log c.caller c.now),
            .rateLimited (l.limit c.kind) l.windowSecs retryAfterSecs)) ∨
      ((l.liveTimes s.log c.caller c.now).length < (l.limit c.kind).toNat ∧
        l.check s.windows c =
          (s.windows.insert c.caller (l.liveTimes s.log c.caller c.now ++ [c.now]), .accepted)) := by
  have hcheck : l.check s.windows c = l.checkRate s.windows c.caller (l.limit c.kind) c.now := by
    unfold RateLimiter.check RateLimiter.limit
    cases c.kind <;> rfl
  have hkept := h.kept c.caller huds c.now hnow
  have hlen : (UInt32.ofNat (l.liveTimes s.log c.caller c.now).length).toNat =
      (l.liveTimes s.log c.caller c.now).length := by
    rw [UInt32.toNat_ofNat']
    exact Nat.mod_eq_of_lt (h.live_short huds hnow)
  unfold Served.deque at hkept
  rw [hcheck]
  unfold RateLimiter.checkRate
  rw [if_neg (by simp [huds]), hkept]
  dsimp only
  by_cases hfull : l.limit c.kind ≤ UInt32.ofNat (l.liveTimes s.log c.caller c.now).length
  · rw [if_pos hfull]
    rw [UInt32.le_iff_toNat_le, hlen] at hfull
    cases hts : l.liveTimes s.log c.caller c.now with
    | nil =>
      rw [hts] at hfull
      exact .inl ⟨hfull, rfl, rfl⟩
    | cons t ts =>
      rw [hts] at hfull
      exact .inr (.inl ⟨hfull, List.cons_ne_nil t ts, _, rfl⟩)
  · rw [if_neg hfull]
    rw [UInt32.le_iff_toNat_le, hlen, not_le] at hfull
    exact .inr (.inr ⟨hfull, rfl⟩)

/-- **A call is fair exactly where the kinds are apart.** -/
theorem fair_iff (h : Inv l s) (huds : c.caller.isUds = false) (hnow : ∀ e ∈ s.log, e.1.now ≤ c.now) :
    l.Fair s c ↔ l.Apart s c := by
  have hlen : (l.liveTimes s.log c.caller c.now).length = (l.recent s.log c.caller c.now).length := by
    rw [← map_recent, List.length_map]
  have hown : l.recentOf s.log c.caller c.kind c.now ≤ (l.recent s.log c.caller c.now).length :=
    List.countP_le_length
  unfold RateLimiter.Fair RateLimiter.Apart
  rw [← hlen] at hown ⊢
  rcases check_cases h huds hnow with ⟨hfull, hnil, hcheck⟩ | ⟨hfull, hne, r, hcheck⟩ | ⟨hfree, hcheck⟩
  · rw [hcheck]
    constructor
    · exact fun hfair => absurd rfl hfair.1
    · intro hapart
      have hpos := (hapart hfull).2
      rw [hnil] at hpos
      cases hpos
  · have hpos := List.length_pos_of_ne_nil hne
    rw [hcheck]
    constructor
    · exact fun hfair _ => ⟨hfair.2.mp rfl, hpos⟩
    · exact fun hapart => ⟨Outcome.noConfusion, fun _ => (hapart hfull).1, fun _ => rfl⟩
  · rw [hcheck]
    constructor
    · exact fun _ hfull => absurd hfull (not_le.mpr hfree)
    · refine fun _ => ⟨Outcome.noConfusion, fun hrej => ?_, fun hfull => ?_⟩
      · cases hrej
      · exact absurd (hfull.trans hown) (not_le.mpr hfree)

theorem acceptedTimes_le (hnow : ∀ e ∈ s.log, e.1.now ≤ c.now) {caller : CallerId} :
    ∀ t ∈ acceptedTimes s.log caller, t ≤ c.now := by
  intro t ht
  obtain ⟨c', hc', rfl⟩ := List.mem_map.mp ht
  obtain ⟨e, he, rfl⟩ := mem_acceptedOf hc'
  exact hnow e he

theorem acceptedTimes_concat (log : List (Call × Outcome)) (c : Call) (o : Outcome) (caller : CallerId) :
    acceptedTimes (log ++ [(c, o)]) caller =
      acceptedTimes log caller ++ if o = .accepted ∧ c.caller = caller then [c.now] else [] := by
  unfold acceptedTimes
  rw [acceptedOf_concat, List.map_append]
  by_cases h : o = .accepted ∧ c.caller = caller
  · simp [h]
  · simp [h]

/-- The state after a call whose deque became `ts`. -/
def Served.after (s : Served) (c : Call) (ts : List Nat) (o : Outcome) : Served :=
  ⟨s.windows.insert c.caller ts, s.log ++ [(c, o)]⟩

theorem deque_after (s : Served) (c : Call) (ts : List Nat) (o : Outcome) (caller : CallerId) :
    (s.after c ts o).deque caller = if caller = c.caller then ts else s.deque caller := by
  unfold Served.deque Served.after
  dsimp only
  rw [HashMap.lookup_insert_eq]
  by_cases h : caller = c.caller
  · simp [h]
  · simp [h]

/-- A call that is turned away leaves the accepted calls as they were. -/
theorem Inv.reject (h : Inv l s) (huds : c.caller.isUds = false) (hnow : ∀ e ∈ s.log, e.1.now ≤ c.now)
    {o : Outcome} (ho : o ≠ .accepted) :
    Inv l (s.after c (l.liveTimes s.log c.caller c.now) o) := by
  have hof : ∀ caller, acceptedOf (s.after c (l.liveTimes s.log c.caller c.now) o).log caller =
      acceptedOf s.log caller := by
    intro caller
    unfold Served.after
    rw [acceptedOf_concat, if_neg fun hacc => ho hacc.1, List.append_nil]
  have htimes : ∀ caller, acceptedTimes (s.after c (l.liveTimes s.log c.caller c.now) o).log caller =
      acceptedTimes s.log caller := fun caller => congrArg (List.map Call.now) (hof caller)
  have hlive : ∀ caller now, l.liveTimes (s.after c (l.liveTimes s.log c.caller c.now) o).log caller now =
      l.liveTimes s.log caller now := by
    intro caller now
    unfold RateLimiter.liveTimes at htimes ⊢
    rw [htimes]
  refine ⟨fun caller hcaller now hall => ?_, fun caller => ?_, fun caller => ?_,
    fun caller kind start hcaller => ?_⟩
  · have hold : ∀ e ∈ s.log, e.1.now ≤ now := fun e he => hall e (List.mem_append_left _ he)
    have hle : c.now ≤ now := hall (c, o) (List.mem_append_right _ (List.mem_singleton_self _))
    rw [hlive, deque_after]
    by_cases heq : caller = c.caller
    · unfold RateLimiter.liveTimes
      rw [if_pos heq, heq, evict_eq_filter l ((h.ordered c.caller).filter _), filter_live_filter l hle]
    · rw [if_neg heq, h.kept caller hcaller now hold]
  · rw [htimes]
    exact h.ordered caller
  · rw [deque_after]
    by_cases heq : caller = c.caller
    · rw [if_pos heq]
      exact h.live_short huds hnow
    · rw [if_neg heq]
      exact h.short caller
  · unfold acceptedBetween
    rw [hof]
    exact h.bounded caller kind start hcaller

/-- What an interval that ends after the call holds of its kind is recent, and below the limit. -/
theorem countP_lt_limit (hnow : ∀ e ∈ s.log, e.1.now ≤ c.now)
    (hfree : (l.liveTimes s.log c.caller c.now).length < (l.limit c.kind).toNat) {start : Nat}
    (hstop : c.now < start + l.windowDuration) :
    (acceptedOf s.log c.caller).countP (fun c' => c'.kind == c.kind && decide (start ≤ c'.now) &&
      decide (c'.now < start + l.windowDuration)) < (l.limit c.kind).toNat := by
  refine lt_of_le_of_lt ?_ hfree
  rw [← map_recent, List.length_map]
  unfold RateLimiter.recent
  rw [← List.countP_eq_length_filter]
  refine List.countP_mono_left fun c' hc' hp => ?_
  obtain ⟨e, he, rfl⟩ := mem_acceptedOf hc'
  have hle := hnow e he
  simp only [Bool.and_eq_true, decide_eq_true_eq] at hp ⊢
  omega

/-- No interval holds more than the limit after the call either: there was room for it. -/
theorem Inv.accept_bounded (h : Inv l s) (hnow : ∀ e ∈ s.log, e.1.now ≤ c.now)
    (hfree : (l.liveTimes s.log c.caller c.now).length < (l.limit c.kind).toNat) :
    l.Bounded (s.log ++ [(c, .accepted)]) := by
  intro caller kind start hcaller
  unfold acceptedBetween
  rw [acceptedOf_concat, List.countP_append]
  by_cases hin : c.caller = caller ∧ c.kind = kind ∧ start ≤ c.now ∧ c.now < start + l.windowDuration
  · obtain ⟨rfl, rfl, -, hstop⟩ := hin
    have hroom := countP_lt_limit hnow hfree hstop
    have hone : [c].countP (fun c' => c'.kind == c.kind && decide (start ≤ c'.now) &&
        decide (c'.now < start + l.windowDuration)) ≤ 1 := List.countP_le_length
    rw [if_pos ⟨rfl, rfl⟩]
    omega
  · -- the call is not in the interval
    have hzero : (if Outcome.accepted = .accepted ∧ c.caller = caller then [c] else []).countP
        (fun c' => c'.kind == kind && decide (start ≤ c'.now) &&
          decide (c'.now < start + l.windowDuration)) = 0 := by
      rw [List.countP_eq_zero]
      intro c' hc' hp
      split at hc'
      · rename_i hacc
        rw [List.mem_singleton.mp hc'] at hp
        simp only [Bool.and_eq_true, beq_iff_eq, decide_eq_true_eq] at hp
        exact hin ⟨hacc.2, hp.1.1, hp.1.2, hp.2⟩
      · cases hc'
    rw [hzero]
    exact h.bounded caller kind start hcaller

/-- A call that is accepted is one more, and there was room for it. -/
theorem Inv.accept (h : Inv l s) (hnow : ∀ e ∈ s.log, e.1.now ≤ c.now)
    (hfree : (l.liveTimes s.log c.caller c.now).length < (l.limit c.kind).toNat) :
    Inv l (s.after c (l.liveTimes s.log c.caller c.now ++ [c.now]) .accepted) := by
  have hordered : ∀ caller, (acceptedTimes s.log caller ++ [c.now]).Pairwise (· ≤ ·) := by
    intro caller
    rw [List.pairwise_append]
    refine ⟨h.ordered caller, List.pairwise_singleton _ _, fun t ht u hu => ?_⟩
    rw [List.mem_singleton.mp hu]
    exact acceptedTimes_le hnow t ht
  refine ⟨fun caller hcaller now hall => ?_, fun caller => ?_, fun caller => ?_, h.accept_bounded hnow hfree⟩
  · have hold : ∀ e ∈ s.log, e.1.now ≤ now := fun e he => hall e (List.mem_append_left _ he)
    have hle : c.now ≤ now := hall (c, .accepted) (List.mem_append_right _ (List.mem_singleton_self _))
    rw [deque_after]
    by_cases heq : caller = c.caller
    · have hsub : ((l.liveTimes s.log c.caller c.now) ++ [c.now]).Pairwise (· ≤ ·) :=
        (hordered c.caller).sublist ((List.filter_sublist).append_right _)
      rw [if_pos heq, heq, evict_eq_filter l hsub]
      unfold RateLimiter.liveTimes Served.after
      rw [acceptedTimes_concat, if_pos ⟨rfl, rfl⟩, List.filter_append, List.filter_append,
        filter_live_filter l hle]
    · rw [if_neg heq, h.kept caller hcaller now hold]
      unfold RateLimiter.liveTimes Served.after
      rw [acceptedTimes_concat, if_neg fun hacc => heq hacc.2.symm, List.append_nil]
  · unfold Served.after
    rw [acceptedTimes_concat]
    by_cases heq : c.caller = caller
    · rw [if_pos ⟨rfl, heq⟩]
      exact hordered caller
    · rw [if_neg fun hacc => heq hacc.2, List.append_nil]
      exact h.ordered caller
  · rw [deque_after]
    by_cases heq : caller = c.caller
    · have hlimit := (l.limit c.kind).toNat_lt
      rw [if_pos heq, List.length_append, List.length_singleton]
      omega
    · rw [if_neg heq]
      exact h.short caller

/-- **A call keeps the invariant.** -/
theorem serve_inv (h : Inv l s) (huds : c.caller.isUds = false) (hnow : ∀ e ∈ s.log, e.1.now ≤ c.now) :
    Inv l (l.serve s c) := by
  unfold RateLimiter.serve
  rcases check_cases h huds hnow with ⟨-, -, hcheck⟩ | ⟨-, -, r, hcheck⟩ | ⟨hfree, hcheck⟩
  · rw [hcheck]
    exact h.reject huds hnow Outcome.noConfusion
  · rw [hcheck]
    exact h.reject huds hnow Outcome.noConfusion
  · rw [hcheck]
    exact h.accept hnow hfree

end Step

/-! ## Runs -/

/-- The log grows by the call that is served. -/
theorem log_serve (l : RateLimiter) (s : Served) (c : Call) :
    (l.serve s c).log = s.log ++ [(c, (l.check s.windows c).2)] := rfl

theorem now_le_serve {l : RateLimiter} {s : Served} {c c' : Call} (hnow : ∀ e ∈ s.log, e.1.now ≤ c'.now)
    (hle : c.now ≤ c'.now) : ∀ e ∈ (l.serve s c).log, e.1.now ≤ c'.now := by
  intro e he
  rw [log_serve, List.mem_append, List.mem_singleton] at he
  rcases he with he | rfl
  · exact hnow e he
  · exact hle

/-- **A run keeps the invariant, and is fair exactly where the kinds stay apart.** -/
theorem run_fair_iff {l : RateLimiter} {s : Served} {calls : List Call} (h : Inv l s)
    (huds : ∀ c ∈ calls, c.caller.isUds = false) (hsorted : calls.Pairwise (·.now ≤ ·.now))
    (hnow : ∀ c ∈ calls, ∀ e ∈ s.log, e.1.now ≤ c.now) :
    Inv l (calls.foldl l.serve s) ∧
      (Throughout l.serve l.Fair s calls ↔ Throughout l.serve l.Apart s calls) := by
  induction calls generalizing s with
  | nil => exact ⟨h, Iff.rfl⟩
  | cons c calls ih =>
    obtain ⟨hc, hcs⟩ := List.forall_mem_cons.mp huds
    obtain ⟨hle, hsorted⟩ := List.pairwise_cons.mp hsorted
    obtain ⟨hcnow, hcsnow⟩ := List.forall_mem_cons.mp hnow
    obtain ⟨hinv, hiff⟩ := ih (serve_inv h hc hcnow) hcs hsorted fun c' hc' =>
      now_le_serve (hcsnow c' hc') (hle c' hc')
    exact ⟨hinv, and_congr (fair_iff h hc hcnow) hiff⟩

/-- **The rate limiter keeps its promise exactly in the runs in which searches and writes of a caller never exhaust a
limit only together**, and no limit of zero is asked for in an empty window. No interval sees more accepted than the
limit in any run. -/
theorem rateLimiting (l : RateLimiter) (calls : List Call) (huds : ∀ c ∈ calls, c.caller.isUds = false)
    (hsorted : calls.Pairwise (·.now ≤ ·.now)) :
    (Throughout l.serve l.Fair .start calls ∧ l.Bounded (calls.foldl l.serve .start).log) ↔
      Throughout l.serve l.Apart .start calls := by
  have hempty : ∀ c ∈ calls, ∀ e ∈ Served.start.log, e.1.now ≤ c.now := fun _ _ _ he => by cases he
  obtain ⟨hinv, hiff⟩ := run_fair_iff (Inv.start l) huds hsorted hempty
  rw [and_iff_left hinv.bounded, hiff]

/-- An agent. -/
def agent : CallerId := .agent "agent-1"

/-- Two searches a second may be made, and one write. -/
def smallLimits : RateLimiter := ⟨2, 1, 1⟩

theorem rateLimiting_smallLimits :
    (Throughout smallLimits.serve smallLimits.Fair .start [⟨agent, .write, 0⟩, ⟨agent, .search, 5⟩] ∧
        smallLimits.Bounded
          ([⟨agent, .write, 0⟩, ⟨agent, .search, 5⟩].foldl smallLimits.serve .start).log) ↔
      Throughout smallLimits.serve smallLimits.Apart .start [⟨agent, .write, 0⟩, ⟨agent, .search, 5⟩] :=
  rateLimiting smallLimits _ (by decide) (by decide)

/-- A write after a search is rejected though no write was made. A limit of zero panics. -/
theorem rateLimiting_shared :
    (¬ ∀ (l : RateLimiter) (calls : List Call), (∀ c ∈ calls, c.caller.isUds = false) →
        calls.Pairwise (·.now ≤ ·.now) →
        Throughout l.serve l.Fair .start calls ∧ l.Bounded (calls.foldl l.serve .start).log) ∧
      ((RateLimiter.mk 300 0 3600).check ∅ ⟨agent, .write, 0⟩).2 = .panicked := by
  constructor
  · intro h
    have hfair := (h smallLimits [⟨agent, .search, 0⟩, ⟨agent, .write, 5⟩] (by decide) (by decide)).1.2.1
    have hrejected := hfair.2.mp (by decide +kernel)
    exact absurd hrejected (by decide +kernel)
  · decide +kernel

end Unimatrix.RateLimit
