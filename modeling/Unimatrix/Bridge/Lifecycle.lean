import Mathlib.Data.List.ReduceOption
import Unimatrix.Lib.Runs

/-!
# The life of a bridge session

Model of `lifecycle.js` over `http-session.js`: calls of `Lifecycle.handle` run side by side, each awaiting the reply
to its request or the re-init that is in flight, and share one session.

* A step is a call (`handle`), or the reply to what a call awaits (`reply`) or to a re-init (`reinitReply`); then
  everything runs up to its next `await`. A reply is what `dispatchResponse` makes of it, with the session header.
* Messages are JSON objects; of one the model has what the bridge reads. `fits` says that its text is within the
  body limit: a longer one is never sent. The process does not exit (no pin mismatch).
* `dispatched` is every request that was sent, `sends` how often a call sent its own; `established` are the session
  ids the bridge was given, `healed` the ids that a re-init has replaced.

`step` is one step and `run` a run from a fresh bridge.
-/

namespace Unimatrix.McpBridge

/-! ## Messages -/

section Messages

variable {ι : Type}

/-- `msg.id`. -/
inductive MsgId (ι : Type) where
  | undefined
  | null
  | value (id : ι)
  deriving DecidableEq

/-- `id == null`. -/
def MsgId.isNull : MsgId ι → Bool
  | .value _ => false
  | _ => true

/-- A message of the client. -/
structure Request (ι : Type) where
  id : MsgId ι
  isInit : Bool
  fits : Bool
  deriving DecidableEq

/-- A message of a reply: the code and the text of its error, and the version an initialize result names. -/
structure Message (ι : Type) where
  id : MsgId ι
  error : Option (Int × String)
  protocolVersion : Option String
  deriving DecidableEq

/-- `INTERNAL_ERROR`. -/
def internalError : Int := -32603

/-- `SESSION_NOT_FOUND`. -/
def sessionNotFound : Int := -32099

/-- `TRANSPORT_TIMEOUT`. -/
def transportTimeout : Int := -32098

/-- `SENTINEL_TEXT`. -/
def sentinelText (code : Int) : Option String :=
  if code = sessionNotFound then some "MCP session lost, re-init failed"
  else if code = transportTimeout then some "MCP endpoint timed out"
  else none

/-- `id === undefined ? null : id`. -/
def MsgId.orNull : MsgId ι → MsgId ι
  | .undefined => .null
  | id => id

/-- `jsonRpcError`. -/
def jsonRpcError (id : MsgId ι) (code : Int) (text : String) : Message ι := ⟨id.orNull, some (code, text), none⟩

variable [DecidableEq ι]

/-- `correlateById`; `none` in the list is a falsy element. -/
def correlateById (messages : List (Option (Message ι))) (id : MsgId ι) : Option (Message ι) :=
  messages.reduceOption.find? fun m => m.id = id

/-- `correlateById(out, id) || out[0]`. -/
def correlated (out : List (Option (Message ι))) (id : MsgId ι) : Option (Message ι) :=
  (correlateById out id).or out.head?.join

/-- `lostId`. -/
def lostId (out : List (Option (Message ι))) (id : MsgId ι) : Bool :=
  match correlated out id with
  | some ⟨_, some (code, _), _⟩ => (sentinelText code).isSome
  | _ => false

/-- The end of `handle`: what the client is sent. -/
def answer (msg : Request ι) (out : List (Option (Message ι))) : Option (Message ι) :=
  if msg.id.isNull then none
  else
    let m := (correlated out msg.id).getD (jsonRpcError msg.id internalError "empty response")
    match m.error.bind fun e => sentinelText e.1 with
    | some why => some (jsonRpcError msg.id internalError why)
    | none => some m

end Messages

/-! ## The state -/

/-- What becomes of a request: the messages of the reply, a timeout, or another fault of the transport. -/
inductive Outcome (ι : Type) where
  | messages (out : List (Option (Message ι)))
  | timedOut
  | failed

/-- The reply to a request, with the session id of its header. -/
structure Reply (σ ι : Type) where
  sessionHeader : Option σ
  outcome : Outcome ι

/-- Where a call of `handle` is: it awaits the re-init of the dormancy check, the reply to its request (sent with
this session id), the re-init after a lost reply, or the reply to its retry; or it is done, with the last reply. -/
inductive Phase (σ ι : Type) where
  | dormant
  | sent (session : Option σ)
  | lost (out : List (Option (Message ι)))
  | resent (session : Option σ)
  | done (out : List (Option (Message ι)))

/-- A call of `handle`. -/
structure Call (σ ι : Type) where
  msg : Request ι
  phase : Phase σ ι
  sends : Nat

/-- A request that was sent, with its headers. -/
structure Dispatch (σ ι : Type) where
  msg : Request ι
  session : Option σ
  protocolVersion : Option String
  deriving DecidableEq

/-- The session and the lifecycle; `reinitInFlight` holds the id that the re-init replaces. -/
structure Bridge (σ ι : Type) where
  sessionId : Option σ
  protocolVersion : Option String
  initMessage : Option (Request ι)
  reinitInFlight : Option (Option σ)
  lastActivityMs : Nat
  calls : List (Call σ ι)
  dispatched : List (Dispatch σ ι)
  established : List σ
  healed : List (Option σ)

/-- A step of the bridge. -/
inductive Event (σ ι : Type) where
  | handle (msg : Request ι) (now : Nat)
  | reply (k : Nat) (r : Reply σ ι) (now : Nat)
  | reinitReply (r : Reply σ ι) (now : Nat)

variable {σ ι : Type}

/-- A new bridge. -/
def Bridge.fresh (now : Nat) : Bridge σ ι := ⟨none, none, none, none, now, [], [], [], []⟩

/-! ## The code -/

/-- What `_send` returns. -/
def outOf (msg : Request ι) : Outcome ι → List (Option (Message ι))
  | .messages out => out
  | .timedOut => [some (jsonRpcError msg.id.orNull transportTimeout "MCP endpoint timed out")]
  | .failed => [some (jsonRpcError msg.id.orNull internalError "MCP endpoint unreachable")]

/-- The dormancy check of `handle`. -/
def Bridge.stale (staleMs : Nat) (b : Bridge σ ι) (msg : Request ι) (now : Nat) : Bool :=
  !msg.isInit && b.initMessage.isSome && decide (staleMs < now - b.lastActivityMs)

/-- The headers of a request. -/
def Bridge.headers (b : Bridge σ ι) (msg : Request ι) : Dispatch σ ι :=
  ⟨msg, b.sessionId, if msg.isInit then none else b.protocolVersion⟩

/-- `_reinit`, up to its first `await`, and whether there is anything to wait for. A message that is too long is
refused at once, and then the id is restored at once. -/
def Bridge.reinit (b : Bridge σ ι) : Bridge σ ι × Bool :=
  match b.reinitInFlight, b.initMessage with
  | some _, _ => (b, true)
  | none, none => (b, false)
  | none, some init =>
    if init.fits then
      let b' := { b with sessionId := none, reinitInFlight := some b.sessionId }
      ({ b' with dispatched := b'.dispatched ++ [b'.headers init] }, true)
    else (b, false)

/-- A call goes on to its first request. -/
def Call.first (session : Option σ) (c : Call σ ι) : Call σ ι :=
  if c.msg.fits then { c with phase := .sent session, sends := c.sends + 1 }
  else { c with phase := .done (outOf c.msg .failed) }

/-- `handle`. -/
def Bridge.handle (staleMs : Nat) (b : Bridge σ ι) (msg : Request ι) (now : Nat) : Bridge σ ι :=
  let b := if msg.isInit then { b with initMessage := some msg } else b
  let r := if b.stale staleMs msg now then b.reinit else (b, false)
  let b := r.1
  if r.2 then { b with calls := b.calls ++ [⟨msg, .dormant, 0⟩] }
  else
    { b with
      calls := b.calls ++ [Call.first b.sessionId ⟨msg, .dormant, 0⟩]
      dispatched := if msg.fits then b.dispatched ++ [b.headers msg] else b.dispatched }

/-- A reply arrives: its header and its version count if it is one to `initialize`. -/
def Bridge.receive (b : Bridge σ ι) (isInit : Bool) (r : Reply σ ι) (now : Nat) : Bridge σ ι :=
  let b := if isInit then
    { b with
      sessionId := r.sessionHeader.or b.sessionId
      established := b.established ++ r.sessionHeader.toList } else b
  match r.outcome with
  | .messages out =>
    { b with
      lastActivityMs := now
      protocolVersion := if isInit then
        (out.findSome? fun m => m.bind Message.protocolVersion).or b.protocolVersion else b.protocolVersion }
  | _ => b

/-- The `k`-th call is in another phase. -/
def Bridge.setPhase (b : Bridge σ ι) (k : Nat) (phase : Phase σ ι) : Bridge σ ι :=
  { b with calls := b.calls.modify k fun c => { c with phase := phase } }

/-- A call goes on after a re-init. -/
def Call.resume (ok : Bool) (session : Option σ) (c : Call σ ι) : Call σ ι :=
  match c.phase with
  | .dormant => c.first session
  | .lost out =>
    if ok then { c with phase := .resent session, sends := c.sends + 1 } else { c with phase := .done out }
  | _ => c

/-- Whether it then sends its request. -/
def Call.resumes (ok : Bool) (c : Call σ ι) : Bool :=
  match c.phase with
  | .dormant => c.msg.fits
  | .lost _ => ok
  | _ => false

section Steps

variable [DecidableEq ι]

/-- The reply to what the `k`-th call awaits. -/
def Bridge.reply (b : Bridge σ ι) (k : Nat) (r : Reply σ ι) (now : Nat) : Bridge σ ι :=
  match b.calls[k]? with
  | none => b
  | some c =>
    let b' := b.receive c.msg.isInit r now
    let out := outOf c.msg r.outcome
    match c.phase with
    | .sent _ =>
      if !c.msg.isInit && lostId out c.msg.id then
        let h := b'.reinit
        h.1.setPhase k (if h.2 then .lost out else .done out)
      else b'.setPhase k (.done out)
    | .resent _ => b'.setPhase k (.done out)
    | _ => b

/-- The reply to the re-init, and what has waited for it. -/
def Bridge.reinitReply [DecidableEq σ] (b : Bridge σ ι) (r : Reply σ ι) (now : Nat) : Bridge σ ι :=
  match b.reinitInFlight with
  | none => b
  | some prevId =>
    let b := b.receive true r now
    let newId := b.sessionId
    let ok := decide (newId ≠ none ∧ newId ≠ prevId)
    let b := { b with
      sessionId := if ok then newId else prevId
      reinitInFlight := none
      healed := if ok then b.healed ++ [prevId] else b.healed }
    { b with
      calls := b.calls.map (Call.resume ok b.sessionId)
      dispatched := b.dispatched ++ (b.calls.filter (Call.resumes ok)).map fun c => b.headers c.msg }

variable [DecidableEq σ]

/-- One step. -/
def step (staleMs : Nat) (b : Bridge σ ι) : Event σ ι → Bridge σ ι
  | .handle msg now => b.handle staleMs msg now
  | .reply k r now => b.reply k r now
  | .reinitReply r now => b.reinitReply r now

/-- A run from a new bridge. -/
def run (staleMs now : Nat) (es : List (Event σ ι)) : Bridge σ ι := es.foldl (step staleMs) (.fresh now)

end Steps

/-! ## What a step can do -/

@[simp] theorem receive_dispatched (b : Bridge σ ι) (isInit : Bool) (r : Reply σ ι) (now : Nat) :
    (b.receive isInit r now).dispatched = b.dispatched := by
  unfold Bridge.receive
  cases isInit <;> cases r.outcome <;> rfl

@[simp] theorem receive_initMessage (b : Bridge σ ι) (isInit : Bool) (r : Reply σ ι) (now : Nat) :
    (b.receive isInit r now).initMessage = b.initMessage := by
  unfold Bridge.receive
  cases isInit <;> cases r.outcome <;> rfl

@[simp] theorem receive_reinitInFlight (b : Bridge σ ι) (isInit : Bool) (r : Reply σ ι) (now : Nat) :
    (b.receive isInit r now).reinitInFlight = b.reinitInFlight := by
  unfold Bridge.receive
  cases isInit <;> cases r.outcome <;> rfl

theorem receive_sessionId (b : Bridge σ ι) (isInit : Bool) (r : Reply σ ι) (now : Nat) :
    (b.receive isInit r now).sessionId = if isInit then r.sessionHeader.or b.sessionId else b.sessionId := by
  unfold Bridge.receive
  cases isInit <;> cases r.outcome <;> rfl

@[simp] theorem receive_calls (b : Bridge σ ι) (isInit : Bool) (r : Reply σ ι) (now : Nat) :
    (b.receive isInit r now).calls = b.calls := by
  unfold Bridge.receive
  cases isInit <;> cases r.outcome <;> rfl

@[simp] theorem receive_healed (b : Bridge σ ι) (isInit : Bool) (r : Reply σ ι) (now : Nat) :
    (b.receive isInit r now).healed = b.healed := by
  unfold Bridge.receive
  cases isInit <;> cases r.outcome <;> rfl

theorem receive_established (b : Bridge σ ι) (isInit : Bool) (r : Reply σ ι) (now : Nat) :
    (b.receive isInit r now).established =
      if isInit then b.established ++ r.sessionHeader.toList else b.established := by
  unfold Bridge.receive
  cases isInit <;> cases r.outcome <;> rfl

/-- Nothing to wait for, nothing has changed. -/
theorem reinit_of_false {b : Bridge σ ι} (h : b.reinit.2 = false) : b.reinit.1 = b := by
  unfold Bridge.reinit at h ⊢
  split at h
  · cases h
  · rfl
  · split at h
    · cases h
    · rename_i hfits
      rw [if_neg hfits]

/-- A re-init is under way: it was already, or `init` is sent now, without a session id. -/
theorem reinit_of_true {b : Bridge σ ι} (h : b.reinit.2 = true) :
    (b.reinit.1 = b ∧ b.reinitInFlight ≠ none) ∨
      ∃ init, b.initMessage = some init ∧ b.reinitInFlight = none ∧
        b.reinit.1 = { b with
          sessionId := none
          reinitInFlight := some b.sessionId
          dispatched := b.dispatched ++ [{ b with sessionId := none }.headers init] } := by
  unfold Bridge.reinit at h ⊢
  split at h
  · rename_i prevId _ hflight
    exact .inl ⟨rfl, by rw [hflight]; exact Option.some_ne_none _⟩
  · cases h
  · rename_i init hflight hinit
    split at h
    · rename_i hfits
      rw [if_pos hfits]
      exact .inr ⟨init, hinit, hflight, rfl⟩
    · cases h

@[simp] theorem reinit_calls (b : Bridge σ ι) : b.reinit.1.calls = b.calls := by
  cases h : b.reinit.2 with
  | false => rw [reinit_of_false h]
  | true =>
    rcases reinit_of_true h with ⟨hsame, -⟩ | ⟨init, -, -, heq⟩
    · rw [hsame]
    · rw [heq]

@[simp] theorem reinit_healed (b : Bridge σ ι) : b.reinit.1.healed = b.healed := by
  cases h : b.reinit.2 with
  | false => rw [reinit_of_false h]
  | true =>
    rcases reinit_of_true h with ⟨hsame, -⟩ | ⟨init, -, -, heq⟩
    · rw [hsame]
    · rw [heq]

/-- What is waited for is in flight. -/
theorem reinit_inFlight {b : Bridge σ ι} (h : b.reinit.2 = true ∨ b.reinitInFlight ≠ none) :
    b.reinit.1.reinitInFlight ≠ none := by
  cases hwait : b.reinit.2 with
  | false =>
    rw [reinit_of_false hwait]
    exact h.resolve_left (by rw [hwait]; exact Bool.false_ne_true)
  | true =>
    rcases reinit_of_true hwait with ⟨hsame, hflight⟩ | ⟨init, -, -, heq⟩
    · rwa [hsame]
    · rw [heq]
      exact Option.some_ne_none _

/-- What `handle` can do before it awaits. -/
inductive HandleStep (staleMs : Nat) (b : Bridge σ ι) (msg : Request ι) (now : Nat) : Bridge σ ι → Prop
  /-- The dormancy check holds the message back. -/
  | waits (hstale : b.stale staleMs msg now = true) (hwait : b.reinit.2 = true) :
      HandleStep staleMs b msg now { b.reinit.1 with calls := b.reinit.1.calls ++ [⟨msg, .dormant, 0⟩] }
  /-- An `initialize` is kept and sent. -/
  | init (hinit : msg.isInit = true) :
      HandleStep staleMs b msg now { b with
        initMessage := some msg
        calls := b.calls ++ [Call.first b.sessionId ⟨msg, .dormant, 0⟩]
        dispatched := if msg.fits then b.dispatched ++ [b.headers msg] else b.dispatched }
  /-- Another message is sent. -/
  | sends (hinit : msg.isInit = false) (hstale : b.stale staleMs msg now = true → b.reinit.2 = false) :
      HandleStep staleMs b msg now { b with
        calls := b.calls ++ [Call.first b.sessionId ⟨msg, .dormant, 0⟩]
        dispatched := if msg.fits then b.dispatched ++ [b.headers msg] else b.dispatched }

theorem handle_step (staleMs : Nat) (b : Bridge σ ι) (msg : Request ι) (now : Nat) :
    HandleStep staleMs b msg now (b.handle staleMs msg now) := by
  unfold Bridge.handle
  cases hinit : msg.isInit with
  | true =>
    have hstale : ∀ b' : Bridge σ ι, b'.stale staleMs msg now = false := fun b' => by
      unfold Bridge.stale
      rw [hinit]
      rfl
    simp only [if_true, hstale, Bool.false_eq_true, if_false]
    exact .init hinit
  | false =>
    simp only [Bool.false_eq_true, if_false]
    cases hstale : b.stale staleMs msg now with
    | false =>
      simp only [Bool.false_eq_true, if_false]
      exact .sends hinit fun h => by
        rw [hstale] at h
        cases h
    | true =>
      simp only [if_true]
      cases hwait : b.reinit.2 with
      | true =>
        simp only [if_true]
        exact .waits hstale hwait
      | false =>
        simp only [Bool.false_eq_true, if_false, reinit_of_false hwait]
        exact .sends hinit fun _ => hwait

/-- What the reply to the `k`-th call can do. -/
inductive ReplyStep [DecidableEq ι] (b : Bridge σ ι) (k : Nat) (r : Reply σ ι) (now : Nat) : Bridge σ ι → Prop
  /-- The call awaits none. -/
  | idle : ReplyStep b k r now b
  /-- The session is lost: the call awaits a re-init, or gives up if there is none. -/
  | lost {c : Call σ ι} {session : Option σ} (hc : b.calls[k]? = some c) (hphase : c.phase = .sent session)
      (hinit : c.msg.isInit = false) (hlost : lostId (outOf c.msg r.outcome) c.msg.id = true) :
      ReplyStep b k r now ((b.receive false r now).reinit.1.setPhase k
        (if (b.receive false r now).reinit.2 then .lost (outOf c.msg r.outcome)
          else .done (outOf c.msg r.outcome)))
  /-- The call is answered. -/
  | answered {c : Call σ ι} {session : Option σ} (hc : b.calls[k]? = some c)
      (hphase : c.phase = .sent session ∨ c.phase = .resent session) :
      ReplyStep b k r now ((b.receive c.msg.isInit r now).setPhase k (.done (outOf c.msg r.outcome)))

theorem reply_step [DecidableEq ι] (b : Bridge σ ι) (k : Nat) (r : Reply σ ι) (now : Nat) :
    ReplyStep b k r now (b.reply k r now) := by
  unfold Bridge.reply
  split
  · exact .idle
  · rename_i c hc
    simp only
    split
    · rename_i session hphase
      split
      · rename_i hlost
        obtain ⟨hinit, hlost⟩ := Bool.and_eq_true_iff.mp hlost
        have hinit : c.msg.isInit = false := by simpa using hinit
        rw [hinit]
        exact .lost hc hphase hinit hlost
      · exact .answered hc (.inl hphase)
    · rename_i session hphase
      exact .answered hc (.inr hphase)
    · exact .idle

end Unimatrix.McpBridge
