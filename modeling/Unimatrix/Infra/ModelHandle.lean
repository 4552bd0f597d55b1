import Unimatrix.Lib.Except
import Unimatrix.Lib.Runs
import Unimatrix.Store.Hash

/-!
# The handles of the models

Model of `embed_handle.rs`, `nli_handle.rs` and `hash.rs`: a model is loaded in the background, a monitor looks every
ten seconds whether it has to be loaded again, and callers ask for it in between.

* `Handle` is what `start_loading` leaves behind and everything that is spawned from it. The two services have the
  same tasks; `load` is what one attempt comes to (`loadEmbed`, `loadNli`), given what it meets outside (`LoadEnv`).
* A step is one stretch of a task or of a caller between two `await`s. `get_provider` takes two of them where it finds
  a poisoned session: others may come between its look at the state and its write.
* A provider is the number of the load it came from; `panic` poisons its session. Only the service of
  `nli_handle.rs` has `panic`, `look` and `write` (`Act.isShared` is false of them).
* Of the times only their order is kept. Where the ONNX file lies (`resolve_model_dir`, `ensure_model`) and the ONNX
  session itself are answers of `LoadEnv`.
* `spawned`, `ended` and `dropped` record the run.

**`embed_settles`**, **`embed_run`**: the embedding model is loaded at most three times, one after the other, and each
handle ends ready or failed for good. **`nli_loads_le`**: a poisoned session buys two loads more.
**`nli_never_recovers`**: but once the monitor has gone, it buys none, and the handle answers that it is not ready for
ever.
-/

namespace Unimatrix.ModelHandle

/-! ## One attempt -/

/-- What an attempt meets: the directory of the model, the bytes of its file, the session built from it, and whether
the task panicked. Errors are their texts. -/
structure LoadEnv where
  modelDir : Except String String
  read : Except String ByteArray
  session : Except String Unit
  joined : Except String Unit

/-- `verify_sha256`. -/
def verifySha256 (sha256 : Digest) (read : Except String ByteArray) (expectedHex : String) : Except String Unit :=
  match read with
  | .error e => .error ("failed to read model file for hash check: " ++ e)
  | .ok bytes =>
    let actualHex := hex (sha256 bytes)
    if actualHex.toList.map Char.toLower = expectedHex.toList.map Char.toLower then .ok ()
    else .error ("expected " ++ expectedHex ++ ", got " ++ actualHex)

/-- The check of the file, where a hash is configured; `what` begins the text of its failure. -/
def checkHash (sha256 : Digest) (what dir : String) (expectedSha256 : Option String) (env : LoadEnv) :
    Except String Unit :=
  match expectedSha256 with
  | some expected => (verifySha256 sha256 env.read expected).mapError fun e => what ++ dir ++ ": " ++ e
  | none => .ok ()

/-- The attempt of `embed_handle.rs`, with the hash expected. -/
def loadEmbed (sha256 : Digest) (expectedSha256 : Option String) (env : LoadEnv) : Except String Unit := do
  env.joined
  let dir ← env.modelDir
  checkHash sha256 "inference failed: security: hash mismatch for embedding model at " dir expectedSha256 env
  env.session

/-- What the service of `nli_handle.rs` uses of its configuration. -/
structure NliConfig where
  nliModelName : Option String
  nliModelSha256 : Option String

/-- `resolve_nli_model`. -/
def resolveNliModel (config : NliConfig) : Except String Unit :=
  match config.nliModelName with
  | none => .ok ()
  | some name =>
    if name ∈ ["minilm2", "minilm2-q8", "deberta", "deberta-q8"] then .ok ()
    else .error ("unknown nli_model_name: '" ++ name ++ "'; valid values: minilm2, minilm2-q8, deberta, deberta-q8")

/-- The attempt of `nli_handle.rs`. -/
def loadNli (sha256 : Digest) (config : NliConfig) (env : LoadEnv) : Except String Unit := do
  resolveNliModel config
  let dir ← env.modelDir
  checkHash sha256 "security: hash mismatch for NLI model at " dir config.nliModelSha256 env
  env.joined
  env.session

/-! ## The handle -/

/-- `MAX_RETRIES`. -/
def maxRetries : Nat := 3

/-- `EmbedState` and `NliState`. -/
inductive LoadState where
  | loading
  | ready (provider : Nat)
  | failed (message : String) (attempts : Nat)
  | retrying (attempt : Nat)
  deriving DecidableEq, Repr

/-- Where the retry monitor is: before its next look, before the retry it has announced, or gone. -/
inductive Monitor (C : Type) where
  | sleeping
  | backoff (config : C) (nextAttempt : Nat)
  | done

/-- A load task in flight. -/
structure Load (C : Type) where
  provider : Nat
  attempt : Nat
  config : C

/-- A load task that has ended. -/
structure Ended (C : Type) where
  load : Load C
  env : LoadEnv

/-- `EmbedServiceHandle` and `NliServiceHandle`, with their tasks. -/
structure Handle (C : Type) where
  state : LoadState
  config : Option C
  monitor : Monitor C
  loads : List (Load C)
  poisoned : List Nat
  /-- Callers that have found a poisoned session and wait for the lock. -/
  writers : Nat
  spawned : List Nat
  ended : List (Ended C)
  dropped : Nat

/-- `spawn_load_task`. -/
def spawnLoadTask {C : Type} (h : Handle C) (config : C) (attempt : Nat) : Handle C :=
  { h with loads := ⟨h.spawned.length, attempt, config⟩ :: h.loads, spawned := h.spawned ++ [attempt] }

/-- `new`. -/
def Handle.new (C : Type) : Handle C where
  state := .loading
  config := none
  monitor := .done
  loads := []
  poisoned := []
  writers := 0
  spawned := []
  ended := []
  dropped := 0

/-- `new` and `start_loading`. -/
def startLoading {C : Type} (config : C) : Handle C :=
  { spawnLoadTask { Handle.new C with config := some config } config 1 with monitor := .sleeping }

/-- The end of a load task: it writes the state. -/
def loadEnds {C : Type} (load : C → LoadEnv → Except String Unit) (h : Handle C) (i : Nat) (env : LoadEnv) :
    Handle C :=
  match h.loads[i]? with
  | none => h
  | some l =>
    { h with
      loads := h.loads.eraseIdx i
      ended := h.ended ++ [⟨l, env⟩]
      state :=
        match load l.config env with
        | .ok () => .ready l.provider
        | .error message => .failed message l.attempt }

/-- A round of the monitor, from its sleep to the next one or to the backoff. -/
def monitorWakes {C : Type} (h : Handle C) : Handle C :=
  match h.monitor with
  | .sleeping =>
    match h.state with
    | .ready _ => { h with monitor := .done }
    | .loading | .retrying _ => h
    | .failed _ attempts =>
      if maxRetries ≤ attempts then { h with monitor := .done }
      else
        match h.config with
        | some cfg => { h with state := .retrying (attempts + 1), monitor := .backoff cfg (attempts + 1) }
        | none => { h with monitor := .done }
  | _ => h

/-- The end of the backoff. -/
def backoffEnds {C : Type} (h : Handle C) : Handle C :=
  match h.monitor with
  | .backoff cfg nextAttempt => { spawnLoadTask h cfg nextAttempt with monitor := .sleeping }
  | _ => h

/-- `get_provider` up to the read lock: a caller that finds a poisoned session goes on. -/
def look {C : Type} (h : Handle C) : Handle C :=
  match h.state with
  | .ready p => if p ∈ h.poisoned then { h with writers := h.writers + 1 } else h
  | _ => h

/-- The rest of `get_provider` of such a caller. -/
def write {C : Type} (h : Handle C) : Handle C :=
  match h.writers with
  | 0 => h
  | n + 1 =>
    match h.state with
    | .ready _ =>
      { h with writers := n, state := .failed "NLI session mutex poisoned by rayon panic" 1, dropped := h.dropped + 1 }
    | _ => { h with writers := n }

/-- A step of a task, of a caller or of a worker. -/
inductive Act where
  | loadEnds (i : Nat) (env : LoadEnv)
  | monitorWakes
  | backoffEnds
  | panic (provider : Nat)
  | look
  | write

/-- The steps of both services. -/
def Act.isShared : Act → Bool
  | .loadEnds _ _ | .monitorWakes | .backoffEnds => true
  | _ => false

/-- One step. -/
def step {C : Type} (load : C → LoadEnv → Except String Unit) (h : Handle C) : Act → Handle C
  | .loadEnds i env => loadEnds load h i env
  | .monitorWakes => monitorWakes h
  | .backoffEnds => backoffEnds h
  | .panic p => { h with poisoned := p :: h.poisoned }
  | .look => look h
  | .write => write h

/-- What `ServerError` says of a model. -/
inductive ModelError where
  | embedNotReady
  | embedFailed (message : String)
  | nliNotReady
  | nliFailed (message : String)
  deriving DecidableEq, Repr

/-- `get_adapter`. -/
def getAdapter {C : Type} (h : Handle C) : Except ModelError Nat :=
  match h.state with
  | .ready p => .ok p
  | .loading | .retrying _ => .error .embedNotReady
  | .failed message attempts =>
    if attempts < maxRetries then .error .embedNotReady else .error (.embedFailed message)

/-- What `get_provider` returns; what it does to the handle is `look` and `write`. -/
def getProvider {C : Type} (h : Handle C) : Except ModelError Nat :=
  match h.state with
  | .ready p => if p ∈ h.poisoned then .error (.nliFailed "NLI session mutex poisoned") else .ok p
  | .loading | .retrying _ => .error .nliNotReady
  | .failed message attempts =>
    if attempts < maxRetries then .error .nliNotReady else .error (.nliFailed message)

/-- `is_ready_or_loading`. -/
def isReadyOrLoading {C : Type} (h : Handle C) : Bool :=
  match h.state with
  | .ready _ | .loading | .retrying _ => true
  | .failed _ _ => false

/-! ## One load at a time -/

section

variable {C : Type} {load : C → LoadEnv → Except String Unit} {config : C} {h : Handle C}

/-- What the tasks are at in each state. -/
inductive Phase (config : C) : LoadState → Monitor C → List (Load C) → Prop
  | loading : Phase config .loading .sleeping [⟨0, 1, config⟩]
  | ready {m : Monitor C} (p : Nat) (hm : m = .sleeping ∨ m = .done) : Phase config (.ready p) m []
  | failed {m : Monitor C} {a : Nat} (message : String) (hle : 1 ≤ a ∧ a ≤ maxRetries)
      (hm : m = .sleeping ∨ m = .done) : Phase config (.failed message a) m []
  | backoff {a : Nat} (hle : 2 ≤ a ∧ a ≤ maxRetries) : Phase config (.retrying a) (.backoff config a) []
  | reloading {a : Nat} (p : Nat) (hle : 2 ≤ a ∧ a ≤ maxRetries) :
      Phase config (.retrying a) .sleeping [⟨p, a, config⟩]

section

variable {state : LoadState} {m : Monitor C} {loads : List (Load C)}

theorem Phase.of_ready {p : Nat} (h : Phase config (.ready p) m loads) : loads = [] ∧ (m = .sleeping ∨ m = .done) := by
  cases h with
  | ready _ hm => exact ⟨rfl, hm⟩

theorem Phase.of_failed {message : String} {a : Nat} (h : Phase config (.failed message a) m loads) :
    loads = [] ∧ (1 ≤ a ∧ a ≤ maxRetries) ∧ (m = .sleeping ∨ m = .done) := by
  cases h with
  | failed _ hle hm => exact ⟨rfl, hle, hm⟩

theorem Phase.length_loads (h : Phase config state m loads) : loads.length ≤ 1 := by
  cases h with
  | loading => exact Nat.le_refl 1
  | reloading => exact Nat.le_refl 1
  | _ => exact Nat.zero_le 1

theorem Phase.of_backoff {cfg : C} {a : Nat} (h : Phase config state (.backoff cfg a) loads) :
    cfg = config ∧ state = .retrying a ∧ loads = [] ∧ 2 ≤ a ∧ a ≤ maxRetries := by
  cases h with
  | ready _ hm => obtain hm | hm := hm <;> cases hm
  | failed _ _ hm => obtain hm | hm := hm <;> cases hm
  | backoff hle => exact ⟨rfl, rfl, rfl, hle⟩

theorem Phase.of_load {i : Nat} {l : Load C} (h : Phase config state m loads) (hl : loads[i]? = some l) :
    i = 0 ∧ loads = [l] ∧ l.config = config ∧ m = .sleeping ∧ (1 ≤ l.attempt ∧ l.attempt ≤ maxRetries) ∧
      (state = .loading ∧ l.attempt = 1 ∨ state = .retrying l.attempt) := by
  cases h with
  | loading =>
    cases i with
    | zero => cases hl; exact ⟨rfl, rfl, rfl, rfl, ⟨Nat.le_refl 1, show 1 ≤ maxRetries by decide⟩, .inl ⟨rfl, rfl⟩⟩
    | succ i => cases hl
  | reloading p hle =>
    cases i with
    | zero => cases hl; exact ⟨rfl, rfl, rfl, rfl, ⟨Nat.le_of_succ_le hle.1, hle.2⟩, .inr rfl⟩
    | succ i => cases hl
  | _ => cases hl

end

/-- The loads that may still be spawned before a caller finds a poisoned session. -/
def Handle.credit (h : Handle C) : Nat :=
  match h.state with
  | .loading => 2
  | .ready _ => 0
  | .failed _ a => maxRetries - a
  | .retrying a => maxRetries - a + (1 - h.loads.length)

/-- What holds of the handle in every run. -/
structure Inv (load : C → LoadEnv → Except String Unit) (config : C) (h : Handle C) : Prop where
  stored : h.config = some config
  phase : Phase config h.state h.monitor h.loads
  credit : h.spawned.length + h.credit ≤ maxRetries + 2 * h.dropped
  /-- A provider comes from an attempt that went through. -/
  ready : ∀ p, h.state = .ready p → ∃ e ∈ h.ended, e.load.provider = p ∧ load config e.env = .ok ()

theorem inv_startLoading (load : C → LoadEnv → Except String Unit) (config : C) :
    Inv load config (startLoading config) where
  stored := rfl
  phase := .loading
  credit := Nat.le_refl 3
  ready p hp := by cases hp

theorem inv_loadEnds (hi : Inv load config h) (i : Nat) (env : LoadEnv) : Inv load config (loadEnds load h i env) := by
  have hc := hi.credit
  unfold loadEnds
  split
  · exact hi
  · rename_i l hl
    obtain ⟨rfl, hloads, hconfig, hm, hle, hstate⟩ := hi.phase.of_load hl
    have hcr : maxRetries - l.attempt ≤ h.credit := by
      obtain ⟨hs, ha⟩ | hs := hstate
      · simp [Handle.credit, hs, ha, maxRetries]
      · simp [Handle.credit, hs]
    have hnil : h.loads.eraseIdx 0 = [] := by rw [hloads]; rfl
    cases hload : load config env with
    | ok u =>
      refine ⟨hi.stored, ?_, ?_, fun p hp => ?_⟩
      · simp only [hconfig, hload, hnil]
        exact .ready _ (.inl hm)
      · simp only [Handle.credit, hconfig, hload]
        omega
      · simp only [hconfig, hload] at hp
        cases hp
        exact ⟨⟨l, env⟩, List.mem_append_right _ (List.mem_singleton.mpr rfl), rfl, hload⟩
    | error message =>
      refine ⟨hi.stored, ?_, ?_, fun p hp => ?_⟩
      · simp only [hconfig, hload, hnil]
        exact .failed message hle (.inl hm)
      · simp only [Handle.credit, hconfig, hload]
        omega
      · simp only [hconfig, hload] at hp
        cases hp

theorem inv_monitorWakes (hi : Inv load config h) : Inv load config (monitorWakes h) := by
  have hc := hi.credit
  have hphase := hi.phase
  unfold monitorWakes
  split
  · split
    · rename_i p hs
      rw [hs] at hphase
      refine { hi with phase := ?_ }
      show Phase config h.state .done h.loads
      rw [hs, hphase.of_ready.1]
      exact .ready p (.inr rfl)
    · exact hi
    · exact hi
    · rename_i message a hs
      rw [hs] at hphase
      obtain ⟨hl, hle, -⟩ := hphase.of_failed
      split
      · refine { hi with phase := ?_ }
        show Phase config h.state .done h.loads
        rw [hs, hl]
        exact .failed message hle (.inr rfl)
      · rename_i hlt
        rw [hi.stored]
        refine ⟨rfl, ?_, ?_, fun p hp => by cases hp⟩
        · show Phase config (.retrying (a + 1)) (.backoff config (a + 1)) h.loads
          rw [hl]
          exact .backoff ⟨by omega, by omega⟩
        · show h.spawned.length + (maxRetries - (a + 1) + (1 - h.loads.length)) ≤ maxRetries + 2 * h.dropped
          have hcr : h.credit = maxRetries - a := by simp [Handle.credit, hs]
          rw [hl, List.length_nil]
          omega
  · exact hi

theorem inv_backoffEnds (hi : Inv load config h) : Inv load config (backoffEnds h) := by
  have hc := hi.credit
  have hphase := hi.phase
  unfold backoffEnds
  split
  · rename_i cfg a hm
    rw [hm] at hphase
    obtain ⟨rfl, hs, hl, hle⟩ := hphase.of_backoff
    have hcr : h.credit = maxRetries - a + 1 := by simp [Handle.credit, hs, hl]
    have hcr' : (spawnLoadTask h cfg a).credit = maxRetries - a := by
      simp [Handle.credit, spawnLoadTask, hs, hl]
    refine ⟨hi.stored, ?_, ?_, fun p hp => hi.ready p hp⟩
    · show Phase cfg h.state .sleeping (⟨h.spawned.length, a, cfg⟩ :: h.loads)
      rw [hs, hl]
      exact .reloading _ hle
    · show (h.spawned ++ [a]).length + (spawnLoadTask h cfg a).credit ≤ maxRetries + 2 * h.dropped
      rw [hcr', List.length_append, List.length_singleton]
      omega
  · exact hi

theorem inv_write (hi : Inv load config h) : Inv load config (write h) := by
  have hc := hi.credit
  have hphase := hi.phase
  unfold write
  split
  · exact hi
  · split
    · rename_i p hs
      rw [hs] at hphase
      obtain ⟨hl, hm⟩ := hphase.of_ready
      refine ⟨hi.stored, ?_, ?_, fun p hp => by cases hp⟩
      · show Phase config (.failed _ 1) h.monitor h.loads
        rw [hl]
        exact .failed _ (by decide) hm
      · show h.spawned.length + (maxRetries - 1) ≤ maxRetries + 2 * (h.dropped + 1)
        simp only [maxRetries] at hc ⊢
        omega
    · exact { hi with }

theorem inv_step (hi : Inv load config h) (a : Act) : Inv load config (step load h a) := by
  cases a with
  | loadEnds i env => exact inv_loadEnds hi i env
  | monitorWakes => exact inv_monitorWakes hi
  | backoffEnds => exact inv_backoffEnds hi
  | panic p => exact { hi with }
  | look =>
    show Inv load config (look h)
    unfold look
    repeat' split
    all_goals exact { hi with }
  | write => exact inv_write hi

theorem inv_run (load : C → LoadEnv → Except String Unit) (config : C) (acts : List Act) :
    Inv load config (acts.foldl (step load) (startLoading config)) :=
  Runs.invariant (fun (h : Handle C) a (hi : Inv load config h) => inv_step hi a) (inv_startLoading load config) acts

end

/-! ## The embedding model -/

section

variable {C : Type} {load : C → LoadEnv → Except String Unit} {config : C} {h : Handle C}

/-- The attempt went through. -/
def Ended.Succeeded (load : C → LoadEnv → Except String Unit) (config : C) (e : Ended C) : Prop :=
  load config e.env = .ok ()

/-- The attempt failed with this text. -/
def Ended.FailedWith (load : C → LoadEnv → Except String Unit) (config : C) (message : String) (e : Ended C) : Prop :=
  load config e.env = .error message

/-- Where the tasks are, and how the attempts before have ended, where no session is ever poisoned. -/
inductive Course (load : C → LoadEnv → Except String Unit) (config : C) :
    LoadState → Monitor C → List (Load C) → List (Ended C) → Prop
  | loading : Course load config .loading .sleeping [⟨0, 1, config⟩] []
  | backoff {ended : List (Ended C)} (hfailed : ∀ e ∈ ended, ∃ message, e.FailedWith load config message)
      (hlt : ended.length < maxRetries) :
      Course load config (.retrying (ended.length + 1)) (.backoff config (ended.length + 1)) [] ended
  | reloading {ended : List (Ended C)} (hfailed : ∀ e ∈ ended, ∃ message, e.FailedWith load config message)
      (hlt : ended.length < maxRetries) :
      Course load config (.retrying (ended.length + 1)) .sleeping [⟨ended.length, ended.length + 1, config⟩] ended
  | ready {ended : List (Ended C)} {e : Ended C} {m : Monitor C}
      (hfailed : ∀ e ∈ ended, ∃ message, e.FailedWith load config message) (hlt : ended.length < maxRetries)
      (he : e.Succeeded load config) (hm : m = .sleeping ∨ m = .done) :
      Course load config (.ready ended.length) m [] (ended ++ [e])
  | failed {ended : List (Ended C)} {e : Ended C} {message : String} {m : Monitor C}
      (hfailed : ∀ e ∈ ended, ∃ message, e.FailedWith load config message) (hlt : ended.length < maxRetries)
      (he : e.FailedWith load config message) (hm : m = .sleeping ∨ m = .done ∧ ended.length + 1 = maxRetries) :
      Course load config (.failed message (ended.length + 1)) m [] (ended ++ [e])

section

variable {state : LoadState} {m : Monitor C} {loads : List (Load C)} {ended : List (Ended C)}

theorem Course.of_load {i : Nat} {l : Load C} (h : Course load config state m loads ended) (hl : loads[i]? = some l) :
    i = 0 ∧ loads = [l] ∧ l = ⟨ended.length, ended.length + 1, config⟩ ∧ m = .sleeping ∧
      (∀ e ∈ ended, ∃ message, e.FailedWith load config message) ∧ ended.length < maxRetries := by
  cases h with
  | loading =>
    cases i with
    | zero => cases hl; exact ⟨rfl, rfl, rfl, rfl, (fun e he => by cases he), show 0 < maxRetries by decide⟩
    | succ i => cases hl
  | reloading hfailed hlt =>
    cases i with
    | zero => cases hl; exact ⟨rfl, rfl, rfl, rfl, hfailed, hlt⟩
    | succ i => cases hl
  | _ => cases hl

theorem Course.of_backoff {cfg : C} {a : Nat} (h : Course load config state (.backoff cfg a) loads ended) :
    cfg = config ∧ a = ended.length + 1 ∧ state = .retrying a ∧ loads = [] ∧
      (∀ e ∈ ended, ∃ message, e.FailedWith load config message) ∧ ended.length < maxRetries := by
  cases h with
  | backoff hfailed hlt => exact ⟨rfl, rfl, rfl, rfl, hfailed, hlt⟩
  | ready _ _ _ hm => obtain hm | hm := hm <;> cases hm
  | failed _ _ _ hm =>
    obtain hm | ⟨hm, -⟩ := hm
    · cases hm
    · cases hm

theorem Course.of_ready {p : Nat} (h : Course load config (.ready p) m loads ended) :
    loads = [] ∧ ∃ before e, ended = before ++ [e] ∧ before.length = p ∧
      (∀ e ∈ before, ∃ message, e.FailedWith load config message) ∧ before.length < maxRetries ∧
      e.Succeeded load config ∧ (m = .sleeping ∨ m = .done) := by
  cases h with
  | ready hfailed hlt he hm => exact ⟨rfl, _, _, rfl, rfl, hfailed, hlt, he, hm⟩

theorem Course.of_failed {message : String} {a : Nat} (h : Course load config (.failed message a) m loads ended) :
    loads = [] ∧ ∃ before e, ended = before ++ [e] ∧ before.length + 1 = a ∧
      (∀ e ∈ before, ∃ message, e.FailedWith load config message) ∧ before.length < maxRetries ∧
      e.FailedWith load config message ∧ (m = .sleeping ∨ m = .done ∧ before.length + 1 = maxRetries) := by
  cases h with
  | failed hfailed hlt he hm => exact ⟨rfl, _, _, rfl, rfl, hfailed, hlt, he, hm⟩

theorem Course.count (h : Course load config state m loads ended) :
    ended.length + loads.length ≤ maxRetries ∧ loads.length ≤ 1 := by
  cases h with
  | loading => exact ⟨show 1 ≤ maxRetries by decide, Nat.le_refl 1⟩
  | backoff _ hlt => exact ⟨le_of_lt hlt, Nat.zero_le 1⟩
  | reloading _ hlt => exact ⟨hlt, Nat.le_refl 1⟩
  | ready _ hlt =>
    rw [List.length_append]
    exact ⟨hlt, Nat.zero_le 1⟩
  | failed _ hlt =>
    rw [List.length_append]
    exact ⟨hlt, Nat.zero_le 1⟩

/-- Either a task has something to do, or the state is one for good. -/
theorem Course.pending (h : Course load config state m loads ended) :
    loads ≠ [] ∨ (∃ a, m = .backoff config a) ∨ (m = .sleeping ∧ ((∃ p, state = .ready p) ∨
      ∃ message a, state = .failed message a)) ∨ (∃ p, state = .ready p) ∨
      ∃ message a, state = .failed message a ∧ maxRetries ≤ a := by
  cases h with
  | loading => exact .inl (List.cons_ne_nil _ _)
  | backoff => exact .inr (.inl ⟨_, rfl⟩)
  | reloading => exact .inl (List.cons_ne_nil _ _)
  | ready => exact .inr (.inr (.inr (.inl ⟨_, rfl⟩)))
  | failed _ _ _ hm =>
    obtain hm | ⟨-, ha⟩ := hm
    · exact .inr (.inr (.inl ⟨hm, .inr ⟨_, _, rfl⟩⟩))
    · exact .inr (.inr (.inr (.inr ⟨_, _, rfl, ha.ge⟩)))

end

/-- What holds of the handle where no session is ever poisoned. -/
structure EmbedInv (load : C → LoadEnv → Except String Unit) (config : C) (h : Handle C) : Prop where
  stored : h.config = some config
  course : Course load config h.state h.monitor h.loads h.ended
  /-- The attempts are numbered from 1, and each is over before the next one begins. -/
  spawned : h.spawned = List.range' 1 (h.ended.length + h.loads.length)

theorem embedInv_startLoading (load : C → LoadEnv → Except String Unit) (config : C) :
    EmbedInv load config (startLoading config) where
  stored := rfl
  course := .loading
  spawned := rfl

theorem embedInv_loadEnds (hi : EmbedInv load config h) (i : Nat) (env : LoadEnv) :
    EmbedInv load config (loadEnds load h i env) := by
  unfold loadEnds
  split
  · exact hi
  · rename_i l hl
    obtain ⟨rfl, hloads, hleq, hm, hfailed, hlt⟩ := hi.course.of_load hl
    have hspawned := hi.spawned
    rw [hloads] at hspawned
    subst hleq
    refine ⟨hi.stored, ?_, ?_⟩
    · simp only [hm, hloads, List.eraseIdx_zero, List.tail_cons]
      cases hload : load config env with
      | ok u => exact .ready hfailed hlt hload (.inl rfl)
      | error message => exact .failed hfailed hlt hload (.inl rfl)
    · simpa [hloads] using hspawned

theorem embedInv_monitorWakes (hi : EmbedInv load config h) : EmbedInv load config (monitorWakes h) := by
  have hcourse := hi.course
  have hspawned := hi.spawned
  unfold monitorWakes
  split
  · split
    · rename_i p hs
      rw [hs] at hcourse
      obtain ⟨hl, before, e, hended, rfl, hfailed, hlt, he, -⟩ := hcourse.of_ready
      refine { hi with course := ?_ }
      show Course load config h.state .done h.loads h.ended
      rw [hs, hl, hended]
      exact .ready hfailed hlt he (.inr rfl)
    · exact hi
    · exact hi
    · rename_i message a hs
      rw [hs] at hcourse
      obtain ⟨hl, before, e, hended, rfl, hfailed, hlt, he, -⟩ := hcourse.of_failed
      split
      · rename_i hmax
        refine { hi with course := ?_ }
        show Course load config h.state .done h.loads h.ended
        rw [hs, hl, hended]
        exact .failed hfailed hlt he (.inr ⟨rfl, by omega⟩)
      · rename_i hretry
        rw [hi.stored]
        refine ⟨rfl, ?_, hspawned⟩
        show Course load config (.retrying (before.length + 1 + 1)) (.backoff config (before.length + 1 + 1)) h.loads
          h.ended
        have hlen : before.length + 1 = h.ended.length := by simp [hended]
        rw [hl, hlen]
        refine .backoff ?_ (by omega)
        rw [hended]
        intro e' he'
        obtain he' | he' := List.mem_append.mp he'
        · exact hfailed e' he'
        · rw [List.mem_singleton.mp he']
          exact ⟨message, he⟩
  · exact hi

theorem embedInv_backoffEnds (hi : EmbedInv load config h) : EmbedInv load config (backoffEnds h) := by
  have hcourse := hi.course
  have hspawned := hi.spawned
  unfold backoffEnds
  split
  · rename_i cfg a hm
    rw [hm] at hcourse
    obtain ⟨rfl, rfl, hs, hl, hfailed, hlt⟩ := hcourse.of_backoff
    rw [hl, List.length_nil, Nat.add_zero] at hspawned
    have hlen : h.spawned.length = h.ended.length := by rw [hspawned, List.length_range']
    refine ⟨hi.stored, ?_, ?_⟩
    · show Course load cfg h.state .sleeping (⟨h.spawned.length, h.ended.length + 1, cfg⟩ :: h.loads) h.ended
      rw [hs, hl, hlen]
      exact .reloading hfailed hlt
    · show h.spawned ++ [h.ended.length + 1] = List.range' 1 (h.ended.length + (h.loads.length + 1))
      rw [hl, hspawned, List.length_nil, Nat.zero_add, List.range'_concat, Nat.one_mul, Nat.add_comm 1]
  · exact hi

theorem embedInv_step (hi : EmbedInv load config h) {a : Act} (ha : a.isShared = true) :
    EmbedInv load config (step load h a) := by
  cases a with
  | loadEnds i env => exact embedInv_loadEnds hi i env
  | monitorWakes => exact embedInv_monitorWakes hi
  | backoffEnds => exact embedInv_backoffEnds hi
  | _ => cases ha

/-- What the handle is once its answer is no longer that it is not ready: none of the tasks changes it. -/
theorem step_of_settled (hi : EmbedInv load config h) (hsettled : getAdapter h ≠ .error .embedNotReady) {a : Act}
    (ha : a.isShared = true) : (step load h a).state = h.state := by
  have hcourse := hi.course
  unfold getAdapter at hsettled
  have hdone : h.loads = [] ∧ (h.monitor = .sleeping ∨ h.monitor = .done) ∧
      ((∃ p, h.state = .ready p) ∨ ∃ message a, h.state = .failed message a ∧ maxRetries ≤ a) := by
    cases hs : h.state with
    | loading => simp [hs] at hsettled
    | retrying a => simp [hs] at hsettled
    | ready p =>
      rw [hs] at hcourse
      obtain ⟨hl, _, _, -, -, -, -, -, hm⟩ := hcourse.of_ready
      exact ⟨hl, hm, .inl ⟨p, rfl⟩⟩
    | failed message a =>
      rw [hs] at hcourse
      obtain ⟨hl, _, _, -, -, -, -, -, hm⟩ := hcourse.of_failed
      refine ⟨hl, hm.imp id And.left, .inr ⟨message, a, rfl, ?_⟩⟩
      by_contra hlt
      simp [hs, Nat.lt_of_not_le hlt] at hsettled
  obtain ⟨hl, hm, hstate⟩ := hdone
  cases a with
  | loadEnds i env =>
    show (loadEnds load h i env).state = h.state
    rw [loadEnds, hl]
    rfl
  | monitorWakes =>
    show (monitorWakes h).state = h.state
    unfold monitorWakes
    obtain hm | hm := hm
    · rw [hm]
      obtain ⟨p, hs⟩ | ⟨message, a, hs, hle⟩ := hstate
      · simp only [hs]
      · simp only [hs, if_pos hle]
    · rw [hm]
  | backoffEnds =>
    show (backoffEnds h).state = h.state
    unfold backoffEnds
    obtain hm | hm := hm <;> rw [hm]
  | _ => cases ha

theorem getAdapter_congr {h' : Handle C} (hs : h'.state = h.state) : getAdapter h' = getAdapter h := by
  unfold getAdapter
  rw [hs]

theorem embedInv_run (config : C) {acts : List Act} (hshared : ∀ a ∈ acts, a.isShared = true)
    (hi : EmbedInv load config h) : EmbedInv load config (acts.foldl (step load) h) := by
  induction acts generalizing h with
  | nil => exact hi
  | cons a acts ih =>
    exact ih (fun a' ha' => hshared a' (List.mem_cons_of_mem a ha'))
      (embedInv_step hi (hshared a List.mem_cons_self))

theorem state_of_settled (hi : EmbedInv load config h) (hsettled : getAdapter h ≠ .error .embedNotReady)
    {more : List Act} (hshared : ∀ a ∈ more, a.isShared = true) :
    (more.foldl (step load) h).state = h.state := by
  induction more generalizing h with
  | nil => rfl
  | cons a more ih =>
    have ha := hshared a List.mem_cons_self
    have hstate := step_of_settled hi hsettled ha
    refine (ih (embedInv_step hi ha) ?_ fun a' ha' => hshared a' (List.mem_cons_of_mem a ha')).trans hstate
    rwa [getAdapter_congr hstate]

/-- What a run of the tasks of the embedding model has come to. -/
structure EmbedRun (load : C → LoadEnv → Except String Unit) (config : C) (h : Handle C) : Prop where
  attempts : h.spawned = List.range' 1 h.spawned.length ∧ h.spawned.length ≤ maxRetries
  one_load : h.loads.length ≤ 1
  /-- The provider is that of the last attempt, which went through. -/
  ready : ∀ p, getAdapter h = .ok p → ∃ before e, h.ended = before ++ [e] ∧ before.length = p ∧ e.Succeeded load config
  /-- The failure is that of the last attempt allowed, and all have failed. -/
  failed : ∀ message, getAdapter h = .error (.embedFailed message) → ∃ before e, h.ended = before ++ [e] ∧
    before.length + 1 = maxRetries ∧ (∀ e ∈ before, ∃ message, e.FailedWith load config message) ∧
    e.FailedWith load config message
  /-- Either answer is for good. -/
  settled : getAdapter h ≠ .error .embedNotReady → ∀ more : List Act, (∀ a ∈ more, a.isShared = true) →
    getAdapter (more.foldl (step load) h) = getAdapter h

theorem embedRun_of_inv (hi : EmbedInv load config h) : EmbedRun load config h := by
  have hcourse := hi.course
  have hspawned := hi.spawned
  have hcount := hcourse.count
  have hlen : h.spawned.length = h.ended.length + h.loads.length := by rw [hspawned, List.length_range']
  refine ⟨⟨by rw [hlen]; exact hspawned, by omega⟩, hcount.2, fun p hp => ?_, fun message hm => ?_, ?_⟩
  · unfold getAdapter at hp
    cases hs : h.state with
    | ready q =>
      rw [hs] at hcourse
      obtain ⟨-, before, e, hended, hq, -, -, he, -⟩ := hcourse.of_ready
      simp only [hs, Except.ok.injEq] at hp
      exact ⟨before, e, hended, hq.trans hp, he⟩
    | failed message a => simp only [hs] at hp; split at hp <;> cases hp
    | _ => simp [hs] at hp
  · unfold getAdapter at hm
    cases hs : h.state with
    | failed message' a =>
      rw [hs] at hcourse
      obtain ⟨-, before, e, hended, rfl, hfailed, hlt, he, -⟩ := hcourse.of_failed
      simp only [hs] at hm
      split at hm
      · cases hm
      · rename_i hge
        cases hm
        exact ⟨before, e, hended, by omega, hfailed, he⟩
    | _ => simp [hs] at hm
  · exact fun hsettled more hmore => getAdapter_congr (state_of_settled hi hsettled hmore)

theorem verifySha256_ok {sha256 : Digest} {read : Except String ByteArray} {expectedHex : String}
    (h : verifySha256 sha256 read expectedHex = .ok ()) : ∃ bytes, read = .ok bytes ∧
      (hex (sha256 bytes)).toList.map Char.toLower = expectedHex.toList.map Char.toLower := by
  cases read with
  | error e => cases h
  | ok bytes =>
    simp only [verifySha256] at h
    split at h
    · rename_i heq
      exact ⟨bytes, rfl, heq⟩
    · cases h

theorem verified_of_loadEmbed {sha256 : Digest} {expected : String} {env : LoadEnv}
    (h : loadEmbed sha256 (some expected) env = .ok ()) : verifySha256 sha256 env.read expected = .ok () := by
  obtain ⟨_, _, hrest⟩ := Except.bind_eq_ok.mp h
  obtain ⟨dir, _, hchecked⟩ := Except.bind_eq_ok.mp hrest
  obtain ⟨_, hhash, _⟩ := Except.bind_eq_ok.mp hchecked
  exact Except.mapError_eq_ok_iff.mp hhash

/-- **The embedding model is loaded at most three times, one after the other; what callers get is what the last load
came to**, and a model whose file does not have the expected hash is never handed out. -/
theorem embed_run (sha256 : Digest) (expected : Option String) {acts : List Act}
    (hshared : ∀ a ∈ acts, a.isShared = true) :
    EmbedRun (loadEmbed sha256) expected (acts.foldl (step (loadEmbed sha256)) (startLoading expected)) ∧
      ∀ p expectedHex, getAdapter (acts.foldl (step (loadEmbed sha256)) (startLoading expected)) = .ok p →
        expected = some expectedHex → ∃ bytes,
          (hex (sha256 bytes)).toList.map Char.toLower = expectedHex.toList.map Char.toLower ∧
          ∃ e ∈ (acts.foldl (step (loadEmbed sha256)) (startLoading expected)).ended, e.env.read = .ok bytes := by
  have hrun := embedRun_of_inv (embedInv_run expected hshared (embedInv_startLoading (loadEmbed sha256) expected))
  refine ⟨hrun, fun p expectedHex hp hexpected => ?_⟩
  obtain ⟨before, e, hended, -, he⟩ := hrun.ready p hp
  subst hexpected
  obtain ⟨bytes, hread, hhash⟩ := verifySha256_ok (verified_of_loadEmbed he)
  exact ⟨bytes, hhash, e, by rw [hended]; exact List.mem_append_right _ (List.mem_singleton.mpr rfl), hread⟩

/-- Three loads that fail, and a fourth look of the monitor. -/
theorem embed_run_offline :
    let offline : LoadEnv := ⟨.error "io error: offline", .error "", .ok (), .ok ()⟩
    getAdapter ([Act.loadEnds 0 offline, .monitorWakes, .backoffEnds, .loadEnds 0 offline, .monitorWakes, .backoffEnds,
      .loadEnds 0 offline, .monitorWakes].foldl (step (loadEmbed fun _ => Vector.replicate 32 0))
        (startLoading none)) = .error (.embedFailed "io error: offline") := by
  intro offline
  have hrun := (embed_run (fun _ => Vector.replicate 32 0) none (show ∀ a ∈ [Act.loadEnds 0 offline, .monitorWakes,
    .backoffEnds, .loadEnds 0 offline, .monitorWakes, .backoffEnds, .loadEnds 0 offline], a.isShared = true by
      decide)).1
  exact (hrun.settled (by decide) [.monitorWakes] (by decide)).trans rfl

end

/-! ## The end of a run -/

section

variable {C : Type} {load : C → LoadEnv → Except String Unit} {config : C} {h : Handle C}

/-- The step does something. -/
def able (h : Handle C) : Act → Bool
  | .loadEnds i _ => decide (i < h.loads.length)
  | .monitorWakes =>
    match h.monitor, h.state with
    | .sleeping, .ready _ => true
    | .sleeping, .failed _ _ => true
    | _, _ => false
  | .backoffEnds =>
    match h.monitor with
    | .backoff _ _ => true
    | _ => false
  | _ => false

/-- How many steps of a run do something. -/
def effective (load : C → LoadEnv → Except String Unit) : Handle C → List Act → Nat
  | _, [] => 0
  | h, a :: acts => (if able h a then 1 else 0) + effective load (step load h a) acts

/-- An upper bound of the steps that still do something. -/
def Handle.rank (h : Handle C) : Nat :=
  match h.state with
  | .loading => 8
  | .ready _ => match h.monitor with
    | .sleeping => 1
    | _ => 0
  | .failed _ a => match h.monitor with
    | .sleeping => 3 * (maxRetries - a) + 1
    | _ => 0
  | .retrying a => match h.monitor with
    | .backoff _ _ => 3 * (maxRetries - a) + 3
    | _ => 3 * (maxRetries - a) + 2

theorem rank_loadEnds (hi : Inv load config h) (i : Nat) (env : LoadEnv) (hable : able h (.loadEnds i env) = true) :
    (loadEnds load h i env).rank < h.rank := by
  obtain ⟨l, hl⟩ : ∃ l, h.loads[i]? = some l := ⟨_, List.getElem?_eq_getElem (of_decide_eq_true hable)⟩
  obtain ⟨rfl, -, -, hm, hle, hstate⟩ := hi.phase.of_load hl
  have hrank : 3 * (maxRetries - l.attempt) + 2 ≤ h.rank := by
    obtain ⟨hs, ha⟩ | hs := hstate
    · simp [Handle.rank, hs, ha, maxRetries]
    · simp [Handle.rank, hs, hm]
  refine lt_of_lt_of_le ?_ hrank
  simp only [loadEnds, hl]
  cases load l.config env with
  | ok u =>
    simp only [Handle.rank, hm]
    omega
  | error message =>
    simp only [Handle.rank, hm]
    omega

theorem rank_monitorWakes (hi : Inv load config h) (hable : able h .monitorWakes = true) :
    (monitorWakes h).rank < h.rank := by
  have hphase := hi.phase
  cases hm : h.monitor with
  | sleeping =>
    cases hs : h.state with
    | ready p => simp [monitorWakes, Handle.rank, hm, hs]
    | failed message a =>
      rw [hs] at hphase
      obtain ⟨-, hle, -⟩ := hphase.of_failed
      simp only [monitorWakes, hm, hs, hi.stored]
      split
      · simp [Handle.rank, hm, hs]
      · simp only [Handle.rank, hm, hs]
        omega
    | _ => simp [able, hm, hs] at hable
  | _ => simp [able, hm] at hable

theorem rank_backoffEnds (hi : Inv load config h) (hable : able h .backoffEnds = true) :
    (backoffEnds h).rank < h.rank := by
  have hphase := hi.phase
  cases hm : h.monitor with
  | backoff cfg a =>
    rw [hm] at hphase
    obtain ⟨rfl, hs, hl, hle⟩ := hphase.of_backoff
    simp [backoffEnds, spawnLoadTask, Handle.rank, hm, hs]
  | _ => simp [able, hm] at hable

theorem step_of_not_able {a : Act} (ha : a.isShared = true) (hable : able h a = false) : step load h a = h := by
  cases a with
  | loadEnds i env =>
    have hnone : h.loads[i]? = none := List.getElem?_eq_none (Nat.le_of_not_lt (of_decide_eq_false hable))
    simp only [step, loadEnds, hnone]
  | monitorWakes =>
    simp only [step, monitorWakes]
    cases hm : h.monitor with
    | sleeping =>
      cases hs : h.state with
      | ready p => simp [able, hm, hs] at hable
      | failed message a => simp [able, hm, hs] at hable
      | _ => rfl
    | _ => rfl
  | backoffEnds =>
    simp only [step, backoffEnds]
    cases hm : h.monitor with
    | backoff cfg a => simp [able, hm] at hable
    | _ => rfl
  | _ => cases ha

theorem rank_step (hi : Inv load config h) {a : Act} (ha : a.isShared = true) :
    (step load h a).rank + (if able h a then 1 else 0) ≤ h.rank := by
  cases hable : able h a with
  | false => rw [step_of_not_able ha hable]; exact Nat.le_refl _
  | true =>
    cases a with
    | loadEnds i env => exact rank_loadEnds hi i env hable
    | monitorWakes => exact rank_monitorWakes hi hable
    | backoffEnds => exact rank_backoffEnds hi hable
    | _ => cases ha

theorem effective_le (hi : Inv load config h) {acts : List Act} (hshared : ∀ a ∈ acts, a.isShared = true) :
    effective load h acts ≤ h.rank := by
  induction acts generalizing h with
  | nil => exact Nat.zero_le _
  | cons a acts ih =>
    have hstep := rank_step hi (hshared a List.mem_cons_self)
    have hrest := ih (inv_step hi a) fun a' ha' => hshared a' (List.mem_cons_of_mem a ha')
    simp only [effective]
    omega

/-- Where no task can do anything more, callers no longer wait. -/
theorem settled_of_stuck (hi : EmbedInv load config h) (hstuck : ∀ a, a.isShared = true → able h a = false) :
    getAdapter h ≠ .error .embedNotReady := by
  have hload := hstuck (.loadEnds 0 ⟨.error "", .error "", .error "", .error ""⟩) rfl
  have hwakes := hstuck .monitorWakes rfl
  have hbackoff := hstuck .backoffEnds rfl
  unfold getAdapter
  obtain hl | ⟨a, hm⟩ | ⟨hm, ⟨p, hs⟩ | ⟨message, a, hs⟩⟩ | ⟨p, hs⟩ | ⟨message, a, hs, hle⟩ := hi.course.pending
  · exact absurd (of_decide_eq_false hload) (not_not.mpr (List.length_pos_of_ne_nil hl))
  · simp [able, hm] at hbackoff
  · simp [able, hm, hs] at hwakes
  · simp [able, hm, hs] at hwakes
  · simp [hs]
  · simp [hs, Nat.not_lt.mpr hle]

/-- **The embedding model ends up loaded or given up**: whatever the loads come to and however the tasks take turns, at
most eight steps do anything, and where nothing is left to do callers are not told to wait. -/
theorem embed_settles (sha256 : Digest) (expected : Option String) {acts : List Act}
    (hshared : ∀ a ∈ acts, a.isShared = true) :
    effective (loadEmbed sha256) (startLoading expected) acts ≤ 8 ∧
      ((∀ a, a.isShared = true → able (acts.foldl (step (loadEmbed sha256)) (startLoading expected)) a = false) →
        getAdapter (acts.foldl (step (loadEmbed sha256)) (startLoading expected)) ≠ .error .embedNotReady) :=
  ⟨effective_le (inv_startLoading _ expected) hshared,
    settled_of_stuck (embedInv_run expected hshared (embedInv_startLoading _ expected))⟩

/-- The first load goes through. -/
theorem embed_settles_online :
    effective (loadEmbed fun _ => Vector.replicate 32 0) (startLoading none)
      [.monitorWakes, .loadEnds 0 ⟨.ok "models", .ok ⟨#[]⟩, .ok (), .ok ()⟩, .monitorWakes] ≤ 8 :=
  (embed_settles (fun _ => Vector.replicate 32 0) none (show ∀ a ∈ [Act.monitorWakes,
    .loadEnds 0 ⟨.ok "models", .ok ⟨#[]⟩, .ok (), .ok ()⟩, .monitorWakes], a.isShared = true by decide)).1

end

/-! ## The model of `nli_handle.rs` -/

section

variable {C : Type} {load : C → LoadEnv → Except String Unit} {config : C} {h : Handle C}

/-- The provider in the handle is about to be dropped, or has been, and nobody is left to load another one. -/
def Handle.Doomed (h : Handle C) : Prop :=
  h.monitor = .done ∧ h.loads = [] ∧
    ((∃ p, h.state = .ready p) ∧ 0 < h.writers ∨ ∃ message, h.state = .failed message 1)

/-- Nothing brings it back. -/
theorem doomed_step (load : C → LoadEnv → Except String Unit) (hd : h.Doomed) (a : Act) :
    (step load h a).Doomed ∧ (step load h a).spawned = h.spawned ∧
    ∀ message, h.state = .failed message 1 → (step load h a).state = .failed message 1 := by
  obtain ⟨hm, hl, hstate⟩ := hd
  have hsame : h.Doomed ∧ h.spawned = h.spawned ∧
      ∀ message, h.state = .failed message 1 → h.state = .failed message 1 :=
    ⟨⟨hm, hl, hstate⟩, rfl, fun _ hs => hs⟩
  cases a with
  | loadEnds i env =>
    have hstep : step load h (.loadEnds i env) = h := by simp only [step, loadEnds, hl, List.getElem?_nil]
    rwa [hstep]
  | monitorWakes =>
    have hstep : step load h .monitorWakes = h := by simp only [step, monitorWakes, hm]
    rwa [hstep]
  | backoffEnds =>
    have hstep : step load h .backoffEnds = h := by simp only [step, backoffEnds, hm]
    rwa [hstep]
  | panic p => exact ⟨⟨hm, hl, hstate⟩, rfl, fun _ hs => hs⟩
  | look =>
    simp only [step, look]
    split
    · split
      · rename_i p hs hp
        exact ⟨⟨hm, hl, .inl ⟨⟨p, hs⟩, Nat.succ_pos _⟩⟩, rfl, fun _ hs => hs⟩
      · exact hsame
    · exact hsame
  | write =>
    simp only [step, write]
    split
    · exact hsame
    · split
      · rename_i p hs
        exact ⟨⟨hm, hl, .inr ⟨_, rfl⟩⟩, rfl, fun _ hs' => by rw [hs] at hs'; cases hs'⟩
      · rename_i hnot
        obtain ⟨⟨p, hs⟩, -⟩ | hfailed := hstate
        · exact absurd hs (hnot p)
        · exact ⟨⟨hm, hl, .inr hfailed⟩, rfl, fun _ hs => hs⟩

theorem doomed_run (load : C → LoadEnv → Except String Unit) (hd : h.Doomed) (acts : List Act) :
    (acts.foldl (step load) h).Doomed ∧ (acts.foldl (step load) h).spawned = h.spawned ∧
      ∀ message, h.state = .failed message 1 → (acts.foldl (step load) h).state = .failed message 1 := by
  induction acts generalizing h with
  | nil => exact ⟨hd, rfl, fun _ hs => hs⟩
  | cons a acts ih =>
    obtain ⟨hd', hspawned, hstate⟩ := doomed_step load hd a
    obtain ⟨hend, hspawned', hstate'⟩ := ih hd'
    exact ⟨hend, hspawned'.trans hspawned, fun message hs => hstate' message (hstate message hs)⟩

/-- A caller that waits for the lock fails the handle, or another one has. -/
theorem doomed_write (hd : h.Doomed) : ∃ message, (write h).state = .failed message 1 := by
  obtain ⟨-, -, ⟨⟨p, hs⟩, hw⟩ | ⟨message, hs⟩⟩ := hd
  · obtain ⟨n, hn⟩ : ∃ n, h.writers = n + 1 := ⟨h.writers - 1, by omega⟩
    exact ⟨"NLI session mutex poisoned by rayon panic", by simp only [write, hn, hs]⟩
  · refine ⟨message, ?_⟩
    unfold write
    split
    · exact hs
    · split
      · rename_i p hs'
        rw [hs] at hs'
        cases hs'
      · exact hs

/-- **Loads are one at a time and their number is bounded**: three, and two more each time a poisoned session is
dropped. What callers get comes from an attempt that went through, and its session was sound when they looked. -/
theorem nli_loads_le (sha256 : Digest) (config : NliConfig) (acts : List Act) :
    (acts.foldl (step (loadNli sha256)) (startLoading config)).loads.length ≤ 1 ∧
      (acts.foldl (step (loadNli sha256)) (startLoading config)).spawned.length ≤
        maxRetries + 2 * (acts.foldl (step (loadNli sha256)) (startLoading config)).dropped ∧
      ∀ p, getProvider (acts.foldl (step (loadNli sha256)) (startLoading config)) = .ok p →
        p ∉ (acts.foldl (step (loadNli sha256)) (startLoading config)).poisoned ∧
        ∃ e ∈ (acts.foldl (step (loadNli sha256)) (startLoading config)).ended,
          e.load.provider = p ∧ loadNli sha256 config e.env = .ok () := by
  have hi := inv_run (loadNli sha256) config acts
  generalize acts.foldl (step (loadNli sha256)) (startLoading config) = h at hi ⊢
  have hc := hi.credit
  refine ⟨hi.phase.length_loads, by omega, fun p hp => ?_⟩
  unfold getProvider at hp
  cases hs : h.state with
  | ready q =>
    simp only [hs] at hp
    split at hp
    · cases hp
    · rename_i hq
      cases hp
      exact ⟨hq, hi.ready _ hs⟩
  | failed message a =>
    simp only [hs] at hp
    split at hp <;> cases hp
  | _ => simp [hs] at hp

/-- **Once the monitor has gone, a poisoned session is the end**: a caller that finds it and writes the state leaves a
handle that is not ready in any continuation, whatever others do meanwhile, and no load is ever started again. -/
theorem nli_never_recovers (sha256 : Digest) (config : NliConfig) (acts mid more : List Act) {p : Nat}
    (hdone : (acts.foldl (step (loadNli sha256)) (startLoading config)).monitor = .done)
    (hready : (acts.foldl (step (loadNli sha256)) (startLoading config)).state = .ready p)
    (hpoisoned : p ∈ (acts.foldl (step (loadNli sha256)) (startLoading config)).poisoned) :
    getProvider ((acts ++ .look :: mid ++ .write :: more).foldl (step (loadNli sha256)) (startLoading config)) =
        .error .nliNotReady ∧
      isReadyOrLoading ((acts ++ .look :: mid ++ .write :: more).foldl (step (loadNli sha256)) (startLoading config)) =
        false ∧
      ((acts ++ .look :: mid ++ .write :: more).foldl (step (loadNli sha256)) (startLoading config)).spawned =
        (acts.foldl (step (loadNli sha256)) (startLoading config)).spawned := by
  have hi := inv_run (loadNli sha256) config acts
  simp only [List.foldl_append, List.foldl_cons]
  generalize acts.foldl (step (loadNli sha256)) (startLoading config) = h at hi hdone hready hpoisoned ⊢
  have hphase := hi.phase
  rw [hready] at hphase
  have hlook : step (loadNli sha256) h .look = { h with writers := h.writers + 1 } := by
    simp only [step, look, hready, if_pos hpoisoned]
  have hdoomed : (step (loadNli sha256) h .look).Doomed := by
    rw [hlook]
    exact ⟨hdone, hphase.of_ready.1, .inl ⟨⟨p, hready⟩, Nat.succ_pos _⟩⟩
  have hspawned : (step (loadNli sha256) h .look).spawned = h.spawned := by rw [hlook]
  obtain ⟨hmid, hmidSpawned, -⟩ := doomed_run (loadNli sha256) hdoomed mid
  obtain ⟨message, hwritten⟩ := doomed_write hmid
  obtain ⟨hwrite, hwriteSpawned, -⟩ := doomed_step (loadNli sha256) hmid .write
  obtain ⟨-, hmoreSpawned, hmore⟩ := doomed_run (loadNli sha256) hwrite more
  have hstate := hmore message hwritten
  refine ⟨?_, ?_, ?_⟩
  · unfold getProvider
    simp only [hstate]
    rfl
  · unfold isReadyOrLoading
    simp only [hstate]
  · exact hmoreSpawned.trans (hwriteSpawned.trans (hmidSpawned.trans hspawned))

/-- The session of the first provider is poisoned when the monitor has seen that it is ready. -/
theorem nli_never_recovers_one :
    getProvider ([Act.loadEnds 0 ⟨.ok "models", .ok ⟨#[]⟩, .ok (), .ok ()⟩, .monitorWakes, .panic 0, .look, .write,
      .monitorWakes].foldl (step (loadNli fun _ => Vector.replicate 32 0)) (startLoading ⟨none, none⟩)) =
      .error .nliNotReady :=
  (nli_never_recovers (fun _ => Vector.replicate 32 0) ⟨none, none⟩
    [.loadEnds 0 ⟨.ok "models", .ok ⟨#[]⟩, .ok (), .ok ()⟩, .monitorWakes, .panic 0] [] [.monitorWakes] rfl rfl
    List.mem_cons_self).1

end

end Unimatrix.ModelHandle
