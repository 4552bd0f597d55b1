import Mathlib.Data.List.Basic
import Unimatrix.Config.Types
import Unimatrix.Hook.TopicSignal
import Unimatrix.Lib.Interleave

/-!
# The agent registry

Model of `agent_registry` (`registry.rs` of the store), `AgentRegistry` (`registry.rs` of the server),
`resolve_identity` (`identity.rs`) and `context_enroll` (`tools.rs`) with its parameters (`validation.rs`): calls of tools
that take turns at the table, one statement at a time, and may fail at any of them.

* A row has its numbers as they are stored; the JSON text of a list of numbers is that list. A statement that fails does
  nothing, and `bootstrap_defaults` is one transaction. `to_lowercase` is a parameter. Audit and the format of answers are
  left out, and what the database says of an error.
* An agent is whom a call says it is.

**`no_escalation`**: whoever may administrate got it from someone who could. **`protected_kept`**: what "system" and
"human" may do stays as it is. **`admin_kept`**: only another agent's enrollment takes it from someone who could.
-/

namespace Unimatrix.Agents

open Config Interleave TopicSignal

/-! ## The table -/

/-- `TrustLevel`. -/
inductive TrustLevel where
  | system
  | privileged
  | internal
  | restricted
  deriving DecidableEq

/-- `Capability`. -/
inductive Capability where
  | read
  | write
  | search
  | admin
  | sessionWrite
  deriving DecidableEq

/-- `TrustLevel as u8`. -/
def TrustLevel.toNat : TrustLevel → Nat
  | .system => 0
  | .privileged => 1
  | .internal => 2
  | .restricted => 3

/-- `TrustLevel::try_from`. -/
def TrustLevel.ofNat? : Nat → Option TrustLevel
  | 0 => some .system
  | 1 => some .privileged
  | 2 => some .internal
  | 3 => some .restricted
  | _ => none

/-- `Capability as u8`. -/
def Capability.toNat : Capability → Nat
  | .read => 0
  | .write => 1
  | .search => 2
  | .admin => 3
  | .sessionWrite => 4

/-- `Capability::try_from`. -/
def Capability.ofNat? : Nat → Option Capability
  | 0 => some .read
  | 1 => some .write
  | 2 => some .search
  | 3 => some .admin
  | 4 => some .sessionWrite
  | _ => none

/-- A row of `agent_registry`, without its key. -/
structure Row where
  trustLevel : Int
  capabilities : List Nat
  allowedTopics : Option (List String)
  allowedCategories : Option (List String)
  enrolledAt : Nat
  lastSeenAt : Nat
  active : Bool
  deriving DecidableEq

/-- `agent_registry`. -/
abbrev Table : Type := String → Option Row

/-- `AgentRecord`. -/
structure AgentRecord where
  agentId : String
  trustLevel : TrustLevel
  capabilities : List Capability
  allowedTopics : Option (List String)
  allowedCategories : Option (List String)
  enrolledAt : Nat
  lastSeenAt : Nat
  active : Bool
  deriving DecidableEq

/-- What a row says an agent may do: nothing at all, when one of the numbers is no byte. -/
def Row.granted (row : Row) : List Capability :=
  if row.capabilities.all fun n => decide (n < 256) then row.capabilities.filterMap Capability.ofNat? else []

/-- `agent_from_row`. -/
def agentFromRow (agentId : String) (row : Row) : AgentRecord where
  agentId := agentId
  trustLevel := (TrustLevel.ofNat? (row.trustLevel % 256).toNat).getD .restricted
  capabilities := row.granted
  allowedTopics := row.allowedTopics
  allowedCategories := row.allowedCategories
  enrolledAt := row.enrolledAt
  lastSeenAt := row.lastSeenAt
  active := row.active

/-- A row that is inserted. -/
def newRow (trustLevel : TrustLevel) (capabilities : List Capability) (now : Nat) : Row :=
  ⟨trustLevel.toNat, capabilities.map Capability.toNat, none, none, now, now, true⟩

/-- `INSERT OR IGNORE`. -/
def insertOrIgnore (table : Table) (agentId : String) (row : Row) : Table :=
  Function.update table agentId ((table agentId).or (some row))

/-- `UPDATE .. WHERE agent_id = ..`. -/
def updateRow (table : Table) (agentId : String) (f : Row → Row) : Table :=
  Function.update table agentId ((table agentId).map f)

/-- How a statement goes, and when. -/
structure Outcome where
  ok : Bool
  now : Nat

/-- The statements. -/
inductive Op where
  | select (agentId : String)
  | insertOrIgnore (agentId : String) (trustLevel : TrustLevel) (capabilities : List Capability)
  | insert (agentId : String) (trustLevel : TrustLevel) (capabilities : List Capability)
  | update (agentId : String) (trustLevel : TrustLevel) (capabilities : List Capability)
  | updateLastSeen (agentId : String)
  /-- The transaction of `agent_bootstrap_defaults`. -/
  | bootstrap

/-- What a statement answers. -/
inductive Answer where
  | failed
  | row (record : Option AgentRecord)
  | done (now : Nat)

/-- What "system" and "human" may do. -/
def systemCaps : List Capability := [.read, .write, .search, .admin]

/-- The inserts of `agent_bootstrap_defaults`. -/
def bootstrapped (table : Table) (now : Nat) : Table :=
  insertOrIgnore (insertOrIgnore (insertOrIgnore table "system" (newRow .system systemCaps now)) "human"
    (newRow .privileged systemCaps now)) "cortical-implant" (newRow .internal [.read, .search] now)

/-- What a statement does to the table, and what it answers. -/
def exec (a : Op) (o : Outcome) (table : Table) : Table × Answer :=
  if !o.ok then (table, .failed)
  else
    match a with
    | .select agentId => (table, .row ((table agentId).map (agentFromRow agentId)))
    | .insertOrIgnore agentId trustLevel capabilities =>
      (Agents.insertOrIgnore table agentId (newRow trustLevel capabilities o.now), .done o.now)
    | .insert agentId trustLevel capabilities =>
      match table agentId with
      | some _ => (table, .failed)
      | none => (Agents.insertOrIgnore table agentId (newRow trustLevel capabilities o.now), .done o.now)
    | .update agentId trustLevel capabilities =>
      (updateRow table agentId fun row => { row with
        trustLevel := trustLevel.toNat
        capabilities := capabilities.map Capability.toNat
        lastSeenAt := o.now }, .done o.now)
    | .updateLastSeen agentId => (updateRow table agentId fun row => { row with lastSeenAt := o.now }, .done o.now)
    | .bootstrap => (bootstrapped table o.now, .done o.now)

/-! ## The calls -/

/-- `ServerError`, of these calls. -/
inductive ServerError where
  | invalidInput (field reason : String)
  | registry
  | notFound (agentId : String)
  | capabilityDenied (agentId : String) (capability : Capability)
  | protectedAgent (agentId : String)
  | selfLockout
  deriving DecidableEq

/-- A call, as it runs. -/
abbrev Run (A : Type) : Type := Prog Op Answer A

/-- The `?` of a call. -/
def andThen {A B : Type} (x : Run (Except ServerError A)) (f : A → Run (Except ServerError B)) :
    Run (Except ServerError B) := do
  match ← x with
  | .error e => return .error e
  | .ok a => f a

/-- `agent_get`. -/
def agentGet (agentId : String) : Run (Except ServerError (Option AgentRecord)) := do
  match ← perform (.select agentId) with
  | .row record => return .ok record
  | _ => return .error .registry

/-- The names that `session_caps` may have. -/
def sessionCapOf : String → Option Capability
  | "Read" => some .read
  | "Write" => some .write
  | "Search" => some .search
  | _ => none

/-- `permissive`. -/
def permissive (config : AgentsConfig) : Bool := decide (config.defaultTrust = "permissive")

/-- `session_caps`. -/
def sessionCaps (config : AgentsConfig) : List Capability := config.sessionCapabilities.filterMap sessionCapOf

/-- What an agent that nobody enrolled gets. -/
def defaultCaps (config : AgentsConfig) : List Capability :=
  if sessionCaps config ≠ [] then sessionCaps config
  else if permissive config then [.read, .write, .search]
  else [.read, .search]

/-- `resolve_or_enroll`. -/
def resolveOrEnroll (config : AgentsConfig) (agentId : String) : Run (Except ServerError AgentRecord) :=
  andThen (agentGet agentId) fun record => do
    match record with
    | some record => return .ok record
    | none =>
      match ← perform (.insertOrIgnore agentId .restricted (defaultCaps config)) with
      | .failed => return .error .registry
      | _ =>
        match ← perform (.select agentId) with
        | .row (some record) => return .ok record
        | _ => return .error .registry

/-- `update_last_seen`. -/
def updateLastSeen (agentId : String) : Run (Except ServerError Unit) := do
  match ← perform (.updateLastSeen agentId) with
  | .failed => return .error .registry
  | _ => return .ok ()

/-- `extract_agent_id`. -/
def extractAgentId (agentId : Option String) : String :=
  match agentId with
  | none => "anonymous"
  | some id =>
    let trimmed := Words.trim isRustWhitespace id.toList
    if trimmed = [] then "anonymous" else String.ofList trimmed

/-- `ResolvedIdentity`. -/
structure ResolvedIdentity where
  agentId : String
  trustLevel : TrustLevel
  capabilities : List Capability
  deriving DecidableEq

/-- `resolve_identity`. -/
def resolveIdentity (config : AgentsConfig) (agentId : String) : Run (Except ServerError ResolvedIdentity) :=
  andThen (resolveOrEnroll config agentId) fun record =>
    andThen (updateLastSeen agentId) fun _ =>
      pure (.ok ⟨record.agentId, record.trustLevel, record.capabilities⟩)

/-- `has_capability`. -/
def hasCapability (agentId : String) (cap : Capability) : Run (Except ServerError Bool) :=
  andThen (agentGet agentId) fun record =>
    match record with
    | none => pure (.error (.notFound agentId))
    | some record => pure (.ok (decide (cap ∈ record.capabilities)))

/-- `require_capability`. -/
def requireCapability (agentId : String) (cap : Capability) : Run (Except ServerError Unit) :=
  andThen (hasCapability agentId cap) fun has =>
    if has then pure (.ok ()) else pure (.error (.capabilityDenied agentId cap))

/-- `PROTECTED_AGENTS`. -/
def protectedAgents : List String := ["system", "human"]

/-- `agent_enroll`: whether the agent is new, and what is recorded. -/
def agentEnroll (targetId : String) (trustLevel : TrustLevel) (capabilities : List Capability) :
    Run (Except ServerError (Bool × AgentRecord)) :=
  andThen (agentGet targetId) fun existing => do
    match existing with
    | some record =>
      match ← perform (.update targetId trustLevel capabilities) with
      | .done now =>
        return .ok (false, { record with
          agentId := targetId, trustLevel := trustLevel, capabilities := capabilities, lastSeenAt := now })
      | _ => return .error .registry
    | none =>
      match ← perform (.insert targetId trustLevel capabilities) with
      | .done now => return .ok (true, ⟨targetId, trustLevel, capabilities, none, none, now, now, true⟩)
      | _ => return .error .registry

/-- `enroll_agent`. -/
def enrollAgent (callerId targetId : String) (trustLevel : TrustLevel) (capabilities : List Capability) :
    Run (Except ServerError (Bool × AgentRecord)) :=
  if targetId ∈ protectedAgents then pure (.error (.protectedAgent targetId))
  else if callerId = targetId ∧ .admin ∉ capabilities then pure (.error .selfLockout)
  else agentEnroll targetId trustLevel capabilities

/-- `EnrollParams`. -/
structure EnrollParams where
  targetAgentId : String
  trustLevel : String
  capabilities : List String
  agentId : Option String
  format : Option String
  deriving DecidableEq

/-- `MAX_AGENT_ID_LEN`. -/
def maxAgentIdLen : Nat := 100

/-- `validate_enroll_params`; the character of an error is left out. -/
def validateEnrollParams (params : EnrollParams) : Except ServerError Unit :=
  if params.targetAgentId.isEmpty then .error (.invalidInput "target_agent_id" "required")
  else if maxAgentIdLen < params.targetAgentId.length then
    .error (.invalidInput "target_agent_id" "exceeds 100 characters")
  else if params.targetAgentId.toList.any fun c => decide (c.toNat ≤ 0x1F) then
    .error (.invalidInput "target_agent_id" "contains control character")
  else .ok ()

section Parsing

variable (toLowercase : String → String)

/-- `parse_format`, of which only the error is used. -/
def parseFormat (format : Option String) : Except ServerError Unit :=
  match format with
  | none => .ok ()
  | some f =>
    if toLowercase f ∈ ["summary", "markdown", "json"] then .ok ()
    else .error (.invalidInput "format" "must be summary, markdown, or json")

/-- `parse_trust_level`. -/
def parseTrustLevel (s : String) : Except ServerError TrustLevel :=
  match toLowercase s with
  | "system" => .ok .system
  | "privileged" => .ok .privileged
  | "internal" => .ok .internal
  | "restricted" => .ok .restricted
  | _ => .error (.invalidInput "trust_level" "must be one of: system, privileged, internal, restricted")

/-- The names of capabilities that may be given. -/
def capabilityOf : String → Option Capability
  | "read" => some .read
  | "write" => some .write
  | "search" => some .search
  | "admin" => some .admin
  | _ => none

/-- The loop of `parse_capabilities`. -/
def parseCapabilitiesFrom (seen : List String) : List String → Except ServerError (List Capability)
  | [] => .ok []
  | cap :: caps =>
    if toLowercase cap ∈ seen then .error (.invalidInput "capabilities" ("duplicate capability: " ++ cap))
    else
      match capabilityOf (toLowercase cap) with
      | none => .error (.invalidInput "capabilities"
          ("unknown capability '" ++ cap ++ "'. Valid: read, write, search, admin"))
      | some capability => (parseCapabilitiesFrom (toLowercase cap :: seen) caps).map fun rest => capability :: rest

/-- `parse_capabilities`. -/
def parseCapabilities (caps : List String) : Except ServerError (List Capability) :=
  if caps = [] then .error (.invalidInput "capabilities" "at least one capability required")
  else parseCapabilitiesFrom toLowercase [] caps

variable (config : AgentsConfig)

/-- `context_enroll`. -/
def contextEnroll (params : EnrollParams) : Run (Except ServerError (Bool × AgentRecord)) :=
  andThen (resolveIdentity config (extractAgentId params.agentId)) fun identity =>
    andThen (pure (parseFormat toLowercase params.format)) fun _ =>
      andThen (requireCapability identity.agentId .admin) fun _ =>
        andThen (pure (validateEnrollParams params)) fun _ =>
          andThen (pure (parseTrustLevel toLowercase params.trustLevel)) fun trustLevel =>
            andThen (pure (parseCapabilities toLowercase params.capabilities)) fun capabilities =>
              enrollAgent identity.agentId params.targetAgentId trustLevel capabilities

/-- A call. -/
inductive Call where
  /-- `bootstrap_defaults`, when a server starts. -/
  | bootstrap
  | enroll (params : EnrollParams)
  /-- Any other tool, which needs a capability. -/
  | tool (agentId : Option String) (cap : Capability)

/-- `bootstrap_defaults`. -/
def bootstrapDefaults : Run (Except ServerError Unit) := do
  match ← perform .bootstrap with
  | .failed => return .error .registry
  | _ => return .ok ()

/-- A call, as far as it uses the registry. -/
def Call.run : Call → Run (Except ServerError Unit)
  | .bootstrap => bootstrapDefaults
  | .enroll params => andThen (contextEnroll toLowercase config params) fun _ => pure (.ok ())
  | .tool agentId cap =>
    andThen (resolveIdentity config (extractAgentId agentId)) fun identity =>
      requireCapability identity.agentId cap

/-- The calls, before their first statement. -/
def start (calls : List Call) (table : Table) : World Table Op Answer (Except ServerError Unit) where
  shared := table
  procs r :=
    match calls[r]? with
    | some call => call.run toLowercase config
    | none => pure (.ok ())

/-- The table after some turns. -/
def tableAfter (calls : List Call) (table : Table) (es : List (Nat × Outcome)) : Table :=
  (es.foldl (turn exec) (start toLowercase config calls table)).shared

end Parsing

/-! ## What a call keeps -/

theorem decode_encode (capability : Capability) : Capability.ofNat? capability.toNat = some capability := by
  cases capability <;> rfl

theorem toNat_lt (capability : Capability) : capability.toNat < 256 := by
  cases capability <;> decide

theorem filterMap_ofNat (capabilities : List Capability) :
    (capabilities.map Capability.toNat).filterMap Capability.ofNat? = capabilities := by
  induction capabilities with
  | nil => rfl
  | cons capability capabilities ih =>
    rw [List.map_cons, List.filterMap_cons_some (decode_encode capability), ih]

/-- What is written is what is read. -/
theorem granted_of_toNat {row : Row} {capabilities : List Capability}
    (h : row.capabilities = capabilities.map Capability.toNat) : row.granted = capabilities := by
  have hall : (row.capabilities.all fun n => decide (n < 256)) = true := by
    rw [h]
    simp [toNat_lt]
  rw [Row.granted, if_pos hall, h, filterMap_ofNat]

@[simp] theorem newRow_granted (trustLevel : TrustLevel) (capabilities : List Capability) (now : Nat) :
    (newRow trustLevel capabilities now).granted = capabilities := granted_of_toNat rfl

theorem sessionCapOf_ne_admin (s : String) : sessionCapOf s ≠ some .admin := by
  unfold sessionCapOf
  split <;> simp

/-- Nobody may administrate without having been enrolled. -/
theorem admin_notMem_defaultCaps (config : AgentsConfig) : .admin ∉ defaultCaps config := by
  unfold defaultCaps
  split_ifs
  · intro h
    obtain ⟨s, -, hs⟩ := List.mem_filterMap.mp h
    exact sessionCapOf_ne_admin s hs
  · simp
  · simp

/-- A row that was there is there, and one that was not is the new one. -/
theorem insertOrIgnore_eq (table : Table) (agentId : String) (row : Row) (id : String) :
    insertOrIgnore table agentId row id = (table id).or (if id = agentId then some row else none) := by
  unfold insertOrIgnore
  by_cases h : id = agentId
  · subst h
    simp
  · simp [h]

theorem updateRow_eq (table : Table) (agentId : String) (f : Row → Row) (id : String) :
    updateRow table agentId f id = (table id).map fun row => if id = agentId then f row else row := by
  unfold updateRow
  by_cases h : id = agentId
  · subst h
    simp
  · simp [h]

section Spec

variable (I : Table → Prop)

/-- The statement keeps it. -/
def Keeps (a : Op) : Prop := ∀ table, I table → ∀ o, I (exec a o table).1

/-- The statements of every call keep it. -/
structure Stable : Prop where
  select : ∀ agentId, Keeps I (.select agentId)
  updateLastSeen : ∀ agentId, Keeps I (.updateLastSeen agentId)
  insertOrIgnore : ∀ agentId capabilities, .admin ∉ capabilities →
    Keeps I (.insertOrIgnore agentId .restricted capabilities)

/-- From where it holds, all statements of the program keep it, whatever happens between them, and what the program
answers is one of these. -/
def Spec {A : Type} (p : Run A) (Q : A → Prop) : Prop :=
  ∀ table, Wp exec (fun _ => True) I (fun _ _ => True) (fun _ _ => True) p (fun a _ => Q a) table

variable {I} {A B : Type}

theorem spec_pure {a : A} {Q : A → Prop} (h : Q a) : Spec I (pure a) Q := fun _ => wp_pure fun _ _ _ => h

theorem Spec.bind {p : Run A} {f : A → Run B} {P : A → Prop} {Q : B → Prop} (hp : Spec I p P)
    (hf : ∀ a, P a → Spec I (f a) Q) : Spec I (p >>= f) Q :=
  fun table => wp_bind (fun _ => trivial) ((hp table).mono fun a t _ ha => hf a ha t)

theorem spec_perform {a : Op} {Q : Answer → Prop} (hkeeps : Keeps I a)
    (h : ∀ table, I table → ∀ o, Q (exec a o table).2) : Spec I (perform a) Q :=
  fun _ => wp_perform fun t _ hi o _ => ⟨trivial, hkeeps t hi o, fun _ _ _ => h t hi o⟩

/-- What is answered, if it is no error. -/
def OkSpec (I : Table → Prop) (p : Run (Except ServerError A)) (Q : A → Prop) : Prop :=
  Spec I p fun r => ∀ a, r = .ok a → Q a

theorem okSpec_error {e : ServerError} {Q : A → Prop} : OkSpec I (pure (.error e)) Q :=
  spec_pure fun _ h => nomatch h

theorem okSpec_ok {a : A} {Q : A → Prop} (h : Q a) : OkSpec I (pure (.ok a)) Q := by
  refine spec_pure fun b hb => ?_
  cases hb
  exact h

theorem okSpec_pure {r : Except ServerError A} : OkSpec I (pure r) fun a => r = .ok a := spec_pure fun _ h => h

theorem OkSpec.andThen {x : Run (Except ServerError A)} {f : A → Run (Except ServerError B)} {P : A → Prop}
    {Q : B → Prop} (hx : OkSpec I x P) (hf : ∀ a, P a → OkSpec I (f a) Q) : OkSpec I (andThen x f) Q := by
  refine Spec.bind hx fun r hr => ?_
  cases r with
  | error e => exact okSpec_error
  | ok a => exact hf a (hr a rfl)

theorem OkSpec.mono {x : Run (Except ServerError A)} {P Q : A → Prop} (hx : OkSpec I x P) (h : ∀ a, P a → Q a) :
    OkSpec I x Q :=
  fun table => (hx table).mono fun _ _ _ hr a ha => h a (hr a ha)

/-- A statement whose answer is of no use. -/
theorem spec_keeps {a : Op} (h : Keeps I a) : Spec I (perform a) fun _ => True := spec_perform h fun _ _ _ => trivial

/-- The answers of a `select` are read off a table. -/
def Read (I : Table → Prop) (agentId : String) (record : AgentRecord) : Prop :=
  ∃ table row, I table ∧ table agentId = some row ∧ record = agentFromRow agentId row

theorem select_spec (hstable : Stable I) (agentId : String) :
    Spec I (perform (.select agentId)) fun r => ∀ record, r = .row (some record) → Read I agentId record := by
  refine spec_perform (hstable.select agentId) fun table hi o record hr => ?_
  unfold exec at hr
  split_ifs at hr
  obtain ⟨row, hrow, hrecord⟩ := Option.map_eq_some_iff.mp (Answer.row.inj hr)
  exact ⟨table, row, hi, hrow, hrecord.symm⟩

theorem agentGet_spec (hstable : Stable I) (agentId : String) :
    OkSpec I (agentGet agentId) fun r => ∀ record, r = some record → Read I agentId record := by
  refine Spec.bind (select_spec hstable agentId) fun r hr => ?_
  cases r with
  | row record => exact okSpec_ok fun rec hrec => hr rec (by rw [hrec])
  | failed | done now => exact okSpec_error

theorem resolveOrEnroll_spec (hstable : Stable I) (config : AgentsConfig) (agentId : String) :
    OkSpec I (resolveOrEnroll config agentId) (Read I agentId) := by
  refine (agentGet_spec hstable agentId).andThen fun r hr => ?_
  cases r with
  | some record => exact okSpec_ok (hr record rfl)
  | none =>
    have hinsert := hstable.insertOrIgnore agentId _ (admin_notMem_defaultCaps config)
    refine Spec.bind (spec_keeps hinsert) fun r _ => ?_
    have hselect : OkSpec I (do
        match ← perform (.select agentId) with
        | .row (some record) => return .ok record
        | _ => return .error .registry) (Read I agentId) := by
      refine Spec.bind (select_spec hstable agentId) fun r hr => ?_
      rcases r with _ | ⟨_ | record⟩ | _
      · exact okSpec_error
      · exact okSpec_error
      · exact okSpec_ok (hr record rfl)
      · exact okSpec_error
    cases r with
    | failed => exact okSpec_error
    | row record | done now => exact hselect

theorem updateLastSeen_spec (hstable : Stable I) (agentId : String) :
    OkSpec I (updateLastSeen agentId) fun _ => True := by
  refine Spec.bind (spec_keeps (hstable.updateLastSeen agentId)) fun r _ => ?_
  cases r with
  | failed => exact okSpec_error
  | row record | done now => exact okSpec_ok trivial

/-- A call is made by the agent it names. -/
theorem resolveIdentity_spec (hstable : Stable I) (config : AgentsConfig) (agentId : String) :
    OkSpec I (resolveIdentity config agentId) fun identity => identity.agentId = agentId := by
  refine (resolveOrEnroll_spec hstable config agentId).andThen fun record hrecord => ?_
  refine (updateLastSeen_spec hstable agentId).andThen fun _ _ => okSpec_ok ?_
  obtain ⟨-, row, -, -, rfl⟩ := hrecord
  rfl

/-- The agent may do it, as some table says. -/
def May (I : Table → Prop) (cap : Capability) (agentId : String) : Prop :=
  ∃ table row, I table ∧ table agentId = some row ∧ cap ∈ row.granted

theorem requireCapability_spec (hstable : Stable I) (agentId : String) (cap : Capability) :
    OkSpec I (requireCapability agentId cap) fun _ => May I cap agentId := by
  have hhas : OkSpec I (hasCapability agentId cap) fun has => has = true → May I cap agentId := by
    refine (agentGet_spec hstable agentId).andThen fun r hr => ?_
    cases r with
    | none => exact okSpec_error
    | some record =>
      refine okSpec_ok fun hmem => ?_
      obtain ⟨table, row, hi, hrow, rfl⟩ := hr record rfl
      exact ⟨table, row, hi, hrow, of_decide_eq_true hmem⟩
  refine hhas.andThen fun has hmay => ?_
  by_cases h : has = true
  · rw [if_pos h]
    exact okSpec_ok (hmay h)
  · rw [if_neg h]
    exact okSpec_error

theorem agentEnroll_spec (hstable : Stable I) {targetId : String} {trustLevel : TrustLevel}
    {capabilities : List Capability} (hupdate : Keeps I (.update targetId trustLevel capabilities))
    (hinsert : Keeps I (.insert targetId trustLevel capabilities)) :
    OkSpec I (agentEnroll targetId trustLevel capabilities) fun _ => True := by
  refine (agentGet_spec hstable targetId).andThen fun r _ => ?_
  cases r with
  | some record =>
    refine Spec.bind (spec_keeps hupdate) fun r _ => ?_
    cases r with
    | done now => exact okSpec_ok trivial
    | failed | row record => exact okSpec_error
  | none =>
    refine Spec.bind (spec_keeps hinsert) fun r _ => ?_
    cases r with
    | done now => exact okSpec_ok trivial
    | failed | row record => exact okSpec_error

variable {toLowercase : String → String}

/-- What an enrollment that gets as far as the table is. -/
structure Enrolls (I : Table → Prop) (toLowercase : String → String) (params : EnrollParams)
    (capabilities : List Capability) : Prop where
  may : May I .admin (extractAgentId params.agentId)
  parsed : parseCapabilities toLowercase params.capabilities = .ok capabilities
  unprotected : params.targetAgentId ∉ protectedAgents
  stays : extractAgentId params.agentId = params.targetAgentId → .admin ∈ capabilities

theorem contextEnroll_spec (hstable : Stable I) (config : AgentsConfig) {params : EnrollParams}
    (hkeeps : ∀ capabilities, Enrolls I toLowercase params capabilities → ∀ trustLevel,
      Keeps I (.update params.targetAgentId trustLevel capabilities) ∧
        Keeps I (.insert params.targetAgentId trustLevel capabilities)) :
    OkSpec I (contextEnroll toLowercase config params) fun _ => True := by
  refine (resolveIdentity_spec hstable config _).andThen fun identity hid => ?_
  rw [hid]
  refine okSpec_pure.andThen fun _ _ => ?_
  refine (requireCapability_spec hstable _ .admin).andThen fun _ hmay => ?_
  refine okSpec_pure.andThen fun _ _ => ?_
  refine okSpec_pure.andThen fun trustLevel _ => ?_
  refine okSpec_pure.andThen fun capabilities hparsed => ?_
  unfold enrollAgent
  split_ifs with hprotected hself
  · exact okSpec_error
  · exact okSpec_error
  · have hstays : extractAgentId params.agentId = params.targetAgentId → .admin ∈ capabilities := by
      intro hcaller
      by_contra hnot
      exact hself ⟨hcaller, hnot⟩
    obtain ⟨hupdate, hinsert⟩ := hkeeps capabilities ⟨hmay, hparsed, hprotected, hstays⟩ trustLevel
    exact agentEnroll_spec hstable hupdate hinsert

variable {config : AgentsConfig} {calls : List Call} {table : Table}

/-- **What all calls keep, they keep together.** -/
theorem run_keeps (hstable : Stable I) (hbootstrap : .bootstrap ∈ calls → Keeps I .bootstrap)
    (henroll : ∀ params, .enroll params ∈ calls → ∀ capabilities, Enrolls I toLowercase params capabilities →
      ∀ trustLevel, Keeps I (.update params.targetAgentId trustLevel capabilities) ∧
        Keeps I (.insert params.targetAgentId trustLevel capabilities))
    (hI : I table) (es : List (Nat × Outcome)) : I (tableAfter toLowercase config calls table es) := by
  have hcall (call : Call) (hmem : call ∈ calls) : OkSpec I (call.run toLowercase config) fun _ => True := by
    cases call with
    | bootstrap =>
      refine Spec.bind (spec_keeps (hbootstrap hmem)) fun r _ => ?_
      cases r with
      | failed => exact okSpec_error
      | row record | done now => exact okSpec_ok trivial
    | enroll params =>
      exact (contextEnroll_spec hstable config (henroll params hmem)).andThen fun _ _ => okSpec_ok trivial
    | tool agentId cap =>
      refine (resolveIdentity_spec hstable config _).andThen fun identity _ => ?_
      exact (requireCapability_spec hstable identity.agentId cap).mono fun _ _ => trivial
  have hpromised : Promised exec (fun _ => True) I (fun _ _ _ => True) (fun _ _ _ => True) (fun _ _ _ => True)
      (start toLowercase config calls table) := by
    refine ⟨hI, fun r => ?_⟩
    unfold start
    dsimp only
    cases hr : calls[r]? with
    | none => exact wp_pure fun _ _ _ => trivial
    | some call => exact (hcall call (List.mem_of_getElem? hr) table).mono fun _ _ _ _ => trivial
  exact (run_wp (fun _ _ => trivial) (fun _ _ _ _ _ _ => trivial) (fun _ _ _ _ _ _ => trivial) hpromised
    fun _ _ => trivial).1

end Spec

/-! ## Who may administrate -/

variable {toLowercase : String → String} {config : AgentsConfig} {calls : List Call} {table : Table} {id : String}

/-- The agent may administrate. -/
def IsAdmin (table : Table) (id : String) : Prop := ∃ row, table id = some row ∧ .admin ∈ row.granted

/-- The agent could administrate already, or comes with the server, or was given it by one of these. -/
inductive Granted (toLowercase : String → String) (calls : List Call) (table : Table) : String → Prop
  | before {id : String} (h : IsAdmin table id) : Granted toLowercase calls table id
  | bootstrapped {id : String} (hcall : .bootstrap ∈ calls) (h : id ∈ protectedAgents) :
      Granted toLowercase calls table id
  | enrolled {params : EnrollParams} {capabilities : List Capability} (hcall : .enroll params ∈ calls)
      (h : Granted toLowercase calls table (extractAgentId params.agentId))
      (hparsed : parseCapabilities toLowercase params.capabilities = .ok capabilities)
      (hadmin : .admin ∈ capabilities) : Granted toLowercase calls table params.targetAgentId

/-- Nobody else may administrate. -/
def Within (T : String → Prop) (table : Table) : Prop := ∀ id, IsAdmin table id → T id

section Within

variable {T : String → Prop}

/-- Whoever may administrate after an insert could before, or is the one that is inserted. -/
theorem Within.insertOrIgnore (h : Within T table) (agentId : String) (row : Row)
    (hrow : .admin ∈ row.granted → T agentId) : Within T (insertOrIgnore table agentId row) := by
  rintro id ⟨row', hrow', hadmin⟩
  rw [insertOrIgnore_eq] at hrow'
  cases htable : table id with
  | some old =>
    rw [htable] at hrow'
    cases hrow'
    exact h id ⟨_, htable, hadmin⟩
  | none =>
    rw [htable] at hrow'
    by_cases hid : id = agentId
    · subst hid
      rw [if_pos rfl] at hrow'
      cases hrow'
      exact hrow hadmin
    · rw [if_neg hid] at hrow'
      cases hrow'

theorem Within.updateRow {agentId : String} {f : Row → Row} (h : Within T table)
    (hf : ∀ row, table agentId = some row → .admin ∈ (f row).granted → T agentId) :
    Within T (updateRow table agentId f) := by
  rintro id ⟨row', hrow', hadmin⟩
  rw [updateRow_eq] at hrow'
  obtain ⟨old, hold, rfl⟩ := Option.map_eq_some_iff.mp hrow'
  by_cases hid : id = agentId
  · subst hid
    rw [if_pos rfl] at hadmin
    exact hf old hold hadmin
  · rw [if_neg hid] at hadmin
    exact h id ⟨old, hold, hadmin⟩

theorem keeps_of_ok {I : Table → Prop} {a : Op} (h : ∀ table, I table → ∀ now, I (exec a ⟨true, now⟩ table).1) :
    Keeps I a := by
  rintro table hi ⟨ok, now⟩
  cases ok with
  | false => exact hi
  | true => exact h table hi now

theorem keeps_insertOrIgnore {agentId : String} {trustLevel : TrustLevel} {capabilities : List Capability}
    (h : .admin ∈ capabilities → T agentId) : Keeps (Within T) (.insertOrIgnore agentId trustLevel capabilities) :=
  keeps_of_ok fun _ hi _ => hi.insertOrIgnore _ _ (by rwa [newRow_granted])

theorem keeps_insert {agentId : String} {trustLevel : TrustLevel} {capabilities : List Capability}
    (h : .admin ∈ capabilities → T agentId) : Keeps (Within T) (.insert agentId trustLevel capabilities) := by
  refine keeps_of_ok fun table hi now => ?_
  cases hrow : table agentId with
  | some row => simpa [exec, hrow] using hi
  | none =>
    have hnew := hi.insertOrIgnore agentId (newRow trustLevel capabilities now) (by rwa [newRow_granted])
    simpa [exec, hrow] using hnew

theorem keeps_update {agentId : String} {trustLevel : TrustLevel} {capabilities : List Capability}
    (h : .admin ∈ capabilities → T agentId) : Keeps (Within T) (.update agentId trustLevel capabilities) :=
  keeps_of_ok fun _ hi _ => hi.updateRow fun _ _ hadmin => h (by rwa [granted_of_toNat rfl] at hadmin)

theorem stable_within : Stable (Within T) where
  select _ := keeps_of_ok fun _ hi _ => hi
  updateLastSeen agentId := keeps_of_ok fun _ hi _ => hi.updateRow fun row hrow hadmin => hi agentId ⟨row, hrow, hadmin⟩
  insertOrIgnore _ _ hnot := keeps_insertOrIgnore fun hadmin => absurd hadmin hnot

theorem keeps_bootstrap (h : ∀ id ∈ protectedAgents, T id) : Keeps (Within T) .bootstrap := by
  refine keeps_of_ok fun table hi now => ?_
  have hsystem := hi.insertOrIgnore "system" (newRow .system systemCaps now)
    fun _ => h _ (by simp [protectedAgents])
  have hhuman := hsystem.insertOrIgnore "human" (newRow .privileged systemCaps now)
    fun _ => h _ (by simp [protectedAgents])
  refine hhuman.insertOrIgnore _ _ fun hadmin => ?_
  simp at hadmin

end Within

/-- **Whoever may administrate, however the calls took turns and whichever statements failed, could before, or comes
with the server, or was enrolled by one who may.** -/
theorem no_escalation (es : List (Nat × Outcome))
    (h : IsAdmin (tableAfter toLowercase config calls table es) id) :
    Granted toLowercase calls table id := by
  refine run_keeps (I := Within (Granted toLowercase calls table)) stable_within ?_ ?_ (fun _ => .before) es id h
  · exact fun hcall => keeps_bootstrap fun id hid => .bootstrapped hcall hid
  · intro params hcall capabilities henrolls trustLevel
    obtain ⟨table', row, hi, hrow, hadmin⟩ := henrolls.may
    have hgranted (hmem : .admin ∈ capabilities) : Granted toLowercase calls table params.targetAgentId :=
      .enrolled hcall (hi _ ⟨row, hrow, hadmin⟩) henrolls.parsed hmem
    exact ⟨keeps_update hgranted, keeps_insert hgranted⟩

/-- An agent that may administrate. -/
def rootTable (id : String) : Option Row := if id = "root" then some (newRow .privileged systemCaps 1) else none

/-- "root" gives what it may do to "a". -/
def rootCalls : List Call := [.enroll ⟨"a", "privileged", ["read", "admin"], some " root ", none⟩]

/-- Every statement goes well. -/
def rootTurns : List (Nat × Outcome) := [(0, ⟨true, 2⟩), (0, ⟨true, 2⟩), (0, ⟨true, 2⟩), (0, ⟨true, 2⟩), (0, ⟨true, 3⟩)]

/-- "a" may administrate since "root" could. -/
theorem no_escalation_root :
    IsAdmin (tableAfter (fun s => s) {} rootCalls rootTable rootTurns) "a" ∧
      Granted (fun s => s) rootCalls rootTable "a" := by
  have h : IsAdmin (tableAfter (fun s => s) {} rootCalls rootTable rootTurns) "a" :=
    ⟨newRow .privileged [.read, .admin] 3, by decide +kernel, by decide⟩
  exact ⟨h, no_escalation rootTurns h⟩

/-! ## Who stays one who may -/

/-- What is said of an agent stays what it is. -/
def RowIs (id : String) (P : Row → Prop) (table : Table) : Prop := ∃ row, table id = some row ∧ P row

section RowIs

variable {P : Row → Prop}

theorem RowIs.insertOrIgnore (h : RowIs id P table) (agentId : String) (row : Row) :
    RowIs id P (insertOrIgnore table agentId row) := by
  obtain ⟨old, hold, hp⟩ := h
  exact ⟨old, by rw [insertOrIgnore_eq, hold, Option.some_or], hp⟩

theorem RowIs.updateRow {agentId : String} {f : Row → Row} (h : RowIs id P table)
    (hf : agentId = id → ∀ row, P row → P (f row)) : RowIs id P (updateRow table agentId f) := by
  obtain ⟨old, hold, hp⟩ := h
  refine ⟨_, by rw [updateRow_eq, hold, Option.map_some], ?_⟩
  split_ifs with hid
  · exact hf hid.symm old hp
  · exact hp

theorem keeps_insert_rowIs (agentId : String) (trustLevel : TrustLevel) (capabilities : List Capability) :
    Keeps (RowIs id P) (.insert agentId trustLevel capabilities) := by
  refine keeps_of_ok fun table hi now => ?_
  cases hrow : table agentId with
  | some row => simpa [exec, hrow] using hi
  | none => simpa [exec, hrow] using hi.insertOrIgnore agentId (newRow trustLevel capabilities now)

theorem keeps_bootstrap_rowIs : Keeps (RowIs id P) .bootstrap :=
  keeps_of_ok fun _ hi _ => ((hi.insertOrIgnore _ _).insertOrIgnore _ _).insertOrIgnore _ _

theorem stable_rowIs (hseen : ∀ row now, P row → P { row with lastSeenAt := now }) : Stable (RowIs id P) where
  select _ := keeps_of_ok fun _ hi _ => hi
  updateLastSeen _ := keeps_of_ok fun _ hi now => hi.updateRow fun _ row hp => hseen row now hp
  insertOrIgnore _ _ _ := keeps_of_ok fun _ hi _ => hi.insertOrIgnore _ _

end RowIs

/-- **What is recorded of "system" and "human" stays as it is**, but for when they were last seen. -/
theorem protected_kept {row : Row} (hid : id ∈ protectedAgents) (hrow : table id = some row)
    (es : List (Nat × Outcome)) : ∃ now, tableAfter toLowercase config calls table es id =
      some { row with lastSeenAt := now } := by
  have hkept : RowIs id (fun r => ∃ now, r = { row with lastSeenAt := now })
      (tableAfter toLowercase config calls table es) := by
    refine run_keeps (stable_rowIs fun r now hr => ?_) (fun _ => keeps_bootstrap_rowIs) ?_
      ⟨row, hrow, row.lastSeenAt, rfl⟩ es
    · obtain ⟨_, rfl⟩ := hr
      exact ⟨now, rfl⟩
    · intro params _ capabilities henrolls trustLevel
      refine ⟨keeps_of_ok fun _ hi _ => hi.updateRow fun htarget => ?_, keeps_insert_rowIs _ _ _⟩
      exact absurd (htarget ▸ hid) henrolls.unprotected
  obtain ⟨_, hshared, now, rfl⟩ := hkept
  exact ⟨now, hshared⟩

/-- "root" cannot take anything from "human". -/
theorem protected_kept_human :
    ∃ now, tableAfter (fun s => s) {} [.enroll ⟨"human", "restricted", ["read"], some "root", none⟩]
      (fun id => if id = "human" then some (newRow .privileged systemCaps 1) else rootTable id) rootTurns "human" =
        some { newRow .privileged systemCaps 1 with lastSeenAt := now } :=
  protected_kept (by simp [protectedAgents]) rfl rootTurns

/-- **An agent that may administrate still may, unless another agent enrolled it anew.** -/
theorem admin_kept (hself : ∀ params, .enroll params ∈ calls → params.targetAgentId = id →
      extractAgentId params.agentId = id) (h : IsAdmin table id) (es : List (Nat × Outcome)) :
    IsAdmin (tableAfter toLowercase config calls table es) id := by
  refine run_keeps (I := RowIs id fun row => Capability.admin ∈ row.granted) (stable_rowIs fun _ _ hadmin => hadmin)
    (fun _ => keeps_bootstrap_rowIs) ?_ h es
  intro params hcall capabilities henrolls trustLevel
  refine ⟨keeps_of_ok fun _ hi _ => hi.updateRow fun htarget row _ => ?_, keeps_insert_rowIs _ _ _⟩
  rw [granted_of_toNat rfl]
  exact henrolls.stays ((hself params hcall htarget).trans htarget.symm)

/-- "root" still may. -/
theorem admin_kept_root : IsAdmin (tableAfter (fun s => s) {} rootCalls rootTable rootTurns) "root" := by
  refine admin_kept ?_ ⟨newRow .privileged systemCaps 1, rfl, by decide⟩ rootTurns
  intro params hparams htarget
  cases List.mem_singleton.mp hparams
  exact absurd htarget (by decide)

end Unimatrix.Agents
