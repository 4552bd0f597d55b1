import Mathlib.Data.List.Nodup
import Unimatrix.Lib.JsonWrite
import Unimatrix.Wire.Framing

/-!
# Requests on the wire

Model of `HookRequest`, `ImplantEvent` and `CycleStampPayload` of `wire.rs` with `serialize_request` and
`deserialize_request`.

* What is derived for a type is written out: an absent option is a `null`, or left out where the source says so, and is
  read from either. The type of a request stands in its field `type`.
* A request is read from the value of its text, so of a field that is written twice the last one counts. Arrays in the
  place of objects are not read. The texts of codec errors are left out.
* `inRange` are the numbers that `serde_json` does not refuse; it nests at most 127 values.

**`parse_stringify`**: both languages read a value from its text as it was written. **`deserialize_serialize`**: a
request that was serialized is read back. **`deserialize_encodeFrame`**: so is one that the client sends, whatever
pieces its frame comes in, and `accept` is then as the client sets it.
-/

namespace Unimatrix.Wire

open ByteStream Json

/-! ## The code -/

/-- How `serde_json` reads. -/
def serdeJson (inRange : List Char → Bool) : Dialect := ⟨some 127, false, inRange⟩

/-- `CycleStampPayload`. -/
structure CycleStampPayload where
  topic : String
  phase : Option String

/-- `ImplantEvent`. -/
structure ImplantEvent where
  eventType : String
  sessionId : String
  timestamp : UInt64
  payload : Value
  topicSignal : Option String
  provider : Option String
  modelId : Option String
  cycleStamp : Option CycleStampPayload

/-- `HookRequest`. -/
inductive HookRequest where
  | ping
  | sessionRegister (sessionId cwd : String) (agentRole feature : Option String)
  | sessionClose (sessionId : String) (outcome : Option String) (durationSecs : UInt64)
  | recordEvent (event : ImplantEvent)
  | recordEvents (events : List ImplantEvent)
  | contextSearch (query : String) (sessionId role task feature : Option String) (k maxTokens : Option UInt32)
      (source accept : Option String)
  | briefing (role task : String) (feature : Option String) (maxTokens : Option UInt32)
  | compactPayload (sessionId : String) (injectedEntryIds : List UInt64) (role feature : Option String)
      (tokenLimit : Option UInt32) (transcriptExcerpt accept : Option String)

/-! ### Writing -/

/-- The value of a string. -/
def str (s : String) : Value := .string (text s)

/-- The value of a number. -/
def num (n : Nat) : Value := .number (Nat.toDigits 10 n)

/-- The value of an option: `null` if there is none. -/
def opt {A : Type} (f : A → Value) (o : Option A) : Value := o.elim .null f

/-- A field. -/
def field (name : String) (v : Value) : List (Text × Value) := [(text name, v)]

/-- A field that is left out if there is none. -/
def skipNone {A : Type} (name : String) (f : A → Value) (o : Option A) : List (Text × Value) :=
  o.elim [] fun a => field name (f a)

/-- The value of a `CycleStampPayload`. -/
def CycleStampPayload.toValue (stamp : CycleStampPayload) : Value :=
  .object (field "topic" (str stamp.topic) ++ skipNone "phase" str stamp.phase)

/-- The fields of an `ImplantEvent`. -/
def ImplantEvent.fields (e : ImplantEvent) : List (Text × Value) :=
  field "event_type" (str e.eventType) ++ field "session_id" (str e.sessionId) ++
    field "timestamp" (num e.timestamp.toNat) ++ field "payload" e.payload ++
    skipNone "topic_signal" str e.topicSignal ++ skipNone "provider" str e.provider ++
    skipNone "model_id" str e.modelId ++ skipNone "cycle_stamp" CycleStampPayload.toValue e.cycleStamp

/-- The fields of a `HookRequest`. -/
def HookRequest.fields : HookRequest → List (Text × Value)
  | .ping => field "type" (str "Ping")
  | .sessionRegister sessionId cwd agentRole feature =>
    field "type" (str "SessionRegister") ++ field "session_id" (str sessionId) ++ field "cwd" (str cwd) ++
      field "agent_role" (opt str agentRole) ++ field "feature" (opt str feature)
  | .sessionClose sessionId outcome durationSecs =>
    field "type" (str "SessionClose") ++ field "session_id" (str sessionId) ++ field "outcome" (opt str outcome) ++
      field "duration_secs" (num durationSecs.toNat)
  | .recordEvent event => field "type" (str "RecordEvent") ++ event.fields
  | .recordEvents events =>
    field "type" (str "RecordEvents") ++ field "events" (.array (events.map fun e => .object e.fields))
  | .contextSearch query sessionId role task feature k maxTokens source accept =>
    field "type" (str "ContextSearch") ++ field "query" (str query) ++ field "session_id" (opt str sessionId) ++
      field "role" (opt str role) ++ field "task" (opt str task) ++ field "feature" (opt str feature) ++
      field "k" (opt (num ·.toNat) k) ++ field "max_tokens" (opt (num ·.toNat) maxTokens) ++
      skipNone "source" str source ++ skipNone "accept" str accept
  | .briefing role task feature maxTokens =>
    field "type" (str "Briefing") ++ field "role" (str role) ++ field "task" (str task) ++
      field "feature" (opt str feature) ++ field "max_tokens" (opt (num ·.toNat) maxTokens)
  | .compactPayload sessionId injectedEntryIds role feature tokenLimit transcriptExcerpt accept =>
    field "type" (str "CompactPayload") ++ field "session_id" (str sessionId) ++
      field "injected_entry_ids" (.array (injectedEntryIds.map (num ·.toNat))) ++ field "role" (opt str role) ++
      field "feature" (opt str feature) ++ field "token_limit" (opt (num ·.toNat) tokenLimit) ++
      skipNone "transcript_excerpt" str transcriptExcerpt ++ skipNone "accept" str accept

/-- `serialize_request`. -/
def serializeRequest (r : HookRequest) : List UInt8 := Utf8.encode (stringify (.object r.fields))

/-! ### Reading -/

/-- A string without lone surrogates. -/
def ofText (s : Text) : Option String :=
  (s.mapM fun p => match p with
    | CodePoint.scalar c => some c
    | CodePoint.lone _ => none).map String.ofList

/-- The string of a value. -/
def asStr : Value → Option String
  | .string s => ofText s
  | _ => none

/-- The unsigned integer of a value, if it is at most `max`. -/
def asUnsigned (max : Nat) : Value → Option Nat
  | .number digits =>
    if digits.all Char.isDigit && decide (Nat.ofDigitChars 10 digits 0 ≤ max) then
      some (Nat.ofDigitChars 10 digits 0)
    else none
  | _ => none

/-- A `u64`. -/
def asU64 (v : Value) : Option UInt64 := (asUnsigned 0xFFFFFFFFFFFFFFFF v).map UInt64.ofNat

/-- A `u32`. -/
def asU32 (v : Value) : Option UInt32 := (asUnsigned 0xFFFFFFFF v).map UInt32.ofNat

/-- A field that has to be there. -/
def required {A : Type} (read : Value → Option A) (v : Value) (name : String) : Option A := (v.get name).bind read

/-- An option: missing or `null` is none. -/
def asOption {A : Type} (read : Value → Option A) : Option Value → Option (Option A)
  | none | some .null => some none
  | some w => (read w).map some

/-- A field that may be missing or `null`. -/
def optional {A : Type} (read : Value → Option A) (v : Value) (name : String) : Option (Option A) :=
  asOption read (v.get name)

/-- The items of an array. -/
def asList {A : Type} (read : Value → Option A) : Value → Option (List A)
  | .array items => items.mapM read
  | _ => none

/-- A `CycleStampPayload`. -/
def CycleStampPayload.ofValue (v : Value) : Option CycleStampPayload := do
  let topic ← required asStr v "topic"
  let phase ← optional asStr v "phase"
  return ⟨topic, phase⟩

/-- An `ImplantEvent`. -/
def ImplantEvent.ofValue (v : Value) : Option ImplantEvent := do
  let eventType ← required asStr v "event_type"
  let sessionId ← required asStr v "session_id"
  let timestamp ← required asU64 v "timestamp"
  let payload ← required some v "payload"
  let topicSignal ← optional asStr v "topic_signal"
  let provider ← optional asStr v "provider"
  let modelId ← optional asStr v "model_id"
  let cycleStamp ← optional CycleStampPayload.ofValue v "cycle_stamp"
  return ⟨eventType, sessionId, timestamp, payload, topicSignal, provider, modelId, cycleStamp⟩

/-- A `HookRequest` of this `type`. -/
def HookRequest.ofTagged (v : Value) (type : String) : Option HookRequest := do
  match type with
  | "Ping" => return .ping
  | "SessionRegister" =>
    let sessionId ← required asStr v "session_id"
    let cwd ← required asStr v "cwd"
    let agentRole ← optional asStr v "agent_role"
    let feature ← optional asStr v "feature"
    return .sessionRegister sessionId cwd agentRole feature
  | "SessionClose" =>
    let sessionId ← required asStr v "session_id"
    let outcome ← optional asStr v "outcome"
    let durationSecs ← required asU64 v "duration_secs"
    return .sessionClose sessionId outcome durationSecs
  | "RecordEvent" => return .recordEvent (← ImplantEvent.ofValue v)
  | "RecordEvents" => return .recordEvents (← required (asList ImplantEvent.ofValue) v "events")
  | "ContextSearch" =>
    let query ← required asStr v "query"
    let sessionId ← optional asStr v "session_id"
    let role ← optional asStr v "role"
    let task ← optional asStr v "task"
    let feature ← optional asStr v "feature"
    let k ← optional asU32 v "k"
    let maxTokens ← optional asU32 v "max_tokens"
    let source ← optional asStr v "source"
    let accept ← optional asStr v "accept"
    return .contextSearch query sessionId role task feature k maxTokens source accept
  | "Briefing" =>
    let role ← required asStr v "role"
    let task ← required asStr v "task"
    let feature ← optional asStr v "feature"
    let maxTokens ← optional asU32 v "max_tokens"
    return .briefing role task feature maxTokens
  | "CompactPayload" =>
    let sessionId ← required asStr v "session_id"
    let injectedEntryIds ← required (asList asU64) v "injected_entry_ids"
    let role ← optional asStr v "role"
    let feature ← optional asStr v "feature"
    let tokenLimit ← optional asU32 v "token_limit"
    let transcriptExcerpt ← optional asStr v "transcript_excerpt"
    let accept ← optional asStr v "accept"
    return .compactPayload sessionId injectedEntryIds role feature tokenLimit transcriptExcerpt accept
  | _ => none

/-- A `HookRequest`. -/
def HookRequest.ofValue (v : Value) : Option HookRequest := (required asStr v "type").bind (HookRequest.ofTagged v)

/-- The text of some bytes, if they are UTF-8. -/
def fromUtf8 (bytes : List UInt8) : Option (List Char) :=
  if Utf8.encode (Utf8.decode bytes) = bytes then some (Utf8.decode bytes) else none

/-- `deserialize_request`. -/
def deserializeRequest (inRange : List Char → Bool) (data : List UInt8) : Option HookRequest := do
  let cs ← fromUtf8 data
  let v ← parse (serdeJson inRange) cs
  HookRequest.ofValue v

/-! ## A value is read from its text -/

mutual

theorem stringify_eq_write : ∀ v : Value, stringify v = write escapeCodePoint v
  | .null => rfl
  | .bool b => rfl
  | .number digits => rfl
  | .string s => rfl
  | .array items => by rw [stringify, write, stringifyItems_eq items]
  | .object fields => by rw [stringify, write, stringifyFields_eq fields]

theorem stringifyItems_eq : ∀ vs : List Value, stringifyItems vs = writeItems escapeCodePoint vs
  | [] => rfl
  | v :: vs => by rw [stringifyItems, writeItems, stringify_eq_write v, stringifyItems_eq vs]

theorem stringifyFields_eq : ∀ fs : List (Text × Value), stringifyFields fs = writeFields escapeCodePoint fs
  | [] => rfl
  | f :: fs => by rw [stringifyFields, writeFields, stringifyField_eq f, stringifyFields_eq fs]

theorem stringifyField_eq : ∀ f : Text × Value, stringifyField f = writeField escapeCodePoint f
  | (name, v) => by rw [stringifyField, writeField, stringify_eq_write v]; rfl

end

section

variable (d : Dialect) (stack : List Frame) (isName : Bool) (us : List Nat) (rest : List Char)

/-- A letter after a backslash. -/
theorem run_escaped {c : Char} {u : Nat} (hu : c ≠ 'u') (h : escaped c = some u) :
    run d ⟨stack, .string isName us .plain⟩ ('\\' :: c :: rest) =
      run d ⟨stack, .string isName (us ++ [u]) .plain⟩ rest := by
  show run d ⟨stack, .string isName us .backslash⟩ (c :: rest) = _
  have hstep : step d ⟨stack, .string isName us .backslash⟩ c =
      some ⟨stack, .string isName (us ++ [u]) .plain⟩ := by
    simp only [step, stepString, beq_false_of_ne hu, h, Bool.false_eq_true, if_false, Option.map_some]
  rw [run, hstep, Option.bind_some]

theorem step_hex {c : Char} {digit : Nat} (h : hexValue c = some digit) (n value : Nat) :
    step d ⟨stack, .string isName us (.hex n value)⟩ c =
      some (if n ≤ 1 then ⟨stack, .string isName (us ++ [value * 16 + digit]) .plain⟩
        else ⟨stack, .string isName us (.hex (n - 1) (value * 16 + digit))⟩) := by
  simp only [step, stepString, h, Option.map_some]

/-- Four hex digits after `\\u`. -/
theorem run_hex {a b c e : Nat} (ha : a < 16) (hb : b < 16) (hc : c < 16) (he : e < 16) :
    run d ⟨stack, .string isName us .plain⟩ ('\\' :: 'u' :: Nat.digitChar a :: Nat.digitChar b :: Nat.digitChar c ::
        Nat.digitChar e :: rest) =
      run d ⟨stack, .string isName (us ++ [((a * 16 + b) * 16 + c) * 16 + e]) .plain⟩ rest := by
  show run d ⟨stack, .string isName us (.hex 4 0)⟩ _ = _
  rw [run, step_hex d stack isName us (hexValue_digitChar ha), Option.bind_some, if_neg (by decide), run,
    step_hex d stack isName us (hexValue_digitChar hb), Option.bind_some, if_neg (by decide), run,
    step_hex d stack isName us (hexValue_digitChar hc), Option.bind_some, if_neg (by decide), run,
    step_hex d stack isName us (hexValue_digitChar he), Option.bind_some, if_pos (by decide)]
  simp

end

theorem units_of_lt {c : Char} (h : c.toNat < 0x10000) : units c = [c.toNat] := if_pos h

theorem escapes_escapeCodePoint : Escapes escapeCodePoint := by
  intro d stack isName us p rest hp
  cases p with
  | lone u =>
    have hu : u < 0x10000 := by
      obtain hp | hp := hp
      · simp only [isHigh, Bool.and_eq_true, decide_eq_true_eq] at hp
        omega
      · simp only [isLow, Bool.and_eq_true, decide_eq_true_eq] at hp
        omega
    have hvalue : ((u / 0x1000 % 16 * 16 + u / 0x100 % 16) * 16 + u / 0x10 % 16) * 16 + u % 16 = u := by omega
    show run d _ ('\\' :: 'u' :: (hexDigits u ++ rest)) = _
    unfold hexDigits
    rw [List.cons_append, List.cons_append, List.cons_append, List.cons_append, List.nil_append,
      run_hex d stack isName us rest (Nat.mod_lt _ (by decide)) (Nat.mod_lt _ (by decide)) (Nat.mod_lt _ (by decide))
        (Nat.mod_lt _ (by decide)), hvalue]
    rfl
  | scalar c =>
    show run d _ (Delta.escapeChar c ++ rest) = run d ⟨stack, .string isName (us ++ units c) .plain⟩ rest
    unfold Delta.escapeChar
    split
    · rename_i h
      rw [units_of_lt (by omega), h]
      exact run_escaped d stack isName us rest (by decide) rfl
    split
    · rename_i h
      rw [units_of_lt (by omega), h]
      exact run_escaped d stack isName us rest (by decide) rfl
    split
    · rename_i h
      rw [units_of_lt (by omega), h]
      exact run_escaped d stack isName us rest (by decide) rfl
    split
    · rename_i h
      rw [units_of_lt (by omega), h]
      exact run_escaped d stack isName us rest (by decide) rfl
    split
    · rename_i h
      rw [units_of_lt (by omega), h]
      exact run_escaped d stack isName us rest (by decide) rfl
    split
    · rename_i h
      rw [units_of_lt (by omega), h]
      exact run_escaped d stack isName us rest (by decide) rfl
    split
    · rename_i h
      rw [units_of_lt (by omega), h]
      exact run_escaped d stack isName us rest (by decide) rfl
    split
    · rename_i h
      have hvalue : ((0 * 16 + 0) * 16 + c.toNat / 16) * 16 + c.toNat % 16 = c.toNat := by omega
      have hrun := run_hex d stack isName us rest (by decide : 0 < 16) (by decide : 0 < 16)
        (by omega : c.toNat / 16 < 16) (by omega : c.toNat % 16 < 16)
      rw [hvalue] at hrun
      rw [units_of_lt (by omega)]
      exact hrun
    · rename_i hquote hslash _ _ _ _ _ hcontrol
      have hne : ∀ c' : Char, c.toNat ≠ c'.toNat → (c == c') = false := by
        intro c' hc'
        refine beq_false_of_ne fun he => hc' ?_
        rw [he]
      have hstep : step d ⟨stack, .string isName us .plain⟩ c =
          some ⟨stack, .string isName (us ++ units c) .plain⟩ := by
        simp only [step, stepString, hne '"' hquote, hne '\\' hslash, Bool.false_eq_true, if_false, if_neg hcontrol]
      rw [List.singleton_append, run, hstep, Option.bind_some]

/-- **A value that the dialect can hold is read from its text as it was written.** -/
theorem parse_stringify {d : Dialect} {v : Value} (hv : v.Writable d 0) : parse d (stringify v) = some v := by
  rw [stringify_eq_write]
  exact parse_write escapes_escapeCodePoint hv

/-! ## A request is read from its value -/

section

variable {A : Type} (n m : String) (v : Value) (f : A → Value) (o : Option A) (fs : List (Text × Value))

theorem text_eq_iff : text n = text m ↔ n = m := by
  constructor
  · intro h
    have hinj : Function.Injective CodePoint.scalar := fun a b hab => by cases hab; rfl
    exact String.toList_inj.mp (List.map_injective_iff.mpr hinj h)
  · rintro rfl
    rfl

@[simp] theorem get_field : (Value.object (field n v)).get m = if n = m then some v else none := by
  by_cases h : n = m
  · subst h
    simp [Value.get, field]
  · have hne : text n ≠ text m := fun he => h ((text_eq_iff n m).mp he)
    simp [Value.get, field, h, hne]

@[simp] theorem get_field_append :
    (Value.object (field n v ++ fs)).get m = if n = m then some v else (Value.object fs).get m := by
  by_cases h : n = m
  · subst h
    simp [Value.get, field]
  · have hne : text n ≠ text m := fun he => h ((text_eq_iff n m).mp he)
    simp [Value.get, field, h, hne]

@[simp] theorem get_skipNone : (Value.object (skipNone n f o)).get m = if n = m then o.map f else none := by
  cases o with
  | none => simp [Value.get, skipNone]
  | some a => exact get_field n m (f a)

@[simp] theorem get_skipNone_append : (Value.object (skipNone n f o ++ fs)).get m =
    if n = m then (o.map f).or ((Value.object fs).get m) else (Value.object fs).get m := by
  cases o with
  | none => simp [skipNone]
  | some a => exact get_field_append n m (f a) fs

end

@[simp] theorem ofText_text (s : String) : ofText (text s) = some s := by
  have hmap : ∀ cs : List Char, (cs.map CodePoint.scalar).mapM (fun p => match p with
      | CodePoint.scalar c => some c
      | CodePoint.lone _ => none) = some cs := by
    intro cs
    induction cs with
    | nil => rfl
    | cons c cs ih =>
      rw [List.map_cons, List.mapM_cons, ih]
      rfl
  unfold ofText text
  rw [hmap, Option.map_some, String.ofList_toList]

@[simp] theorem asStr_str (s : String) : asStr (str s) = some s := ofText_text s

theorem asUnsigned_num {max n : Nat} (h : n ≤ max) : asUnsigned max (num n) = some n := by
  unfold asUnsigned num
  have hdigits : (Nat.toDigits 10 n).all Char.isDigit = true :=
    List.all_eq_true.mpr fun c hc => Nat.isDigit_of_mem_toDigits (by decide) (by decide) hc
  simp only [hdigits, Nat.ofDigitChars_ten_toDigits, h, decide_true, Bool.and_self, if_true]

@[simp] theorem asU64_num (n : UInt64) : asU64 (num n.toNat) = some n := by
  unfold asU64
  rw [asUnsigned_num (Nat.le_of_lt_succ n.toNat_lt)]
  simp

@[simp] theorem asU32_num (n : UInt32) : asU32 (num n.toNat) = some n := by
  unfold asU32
  rw [asUnsigned_num (Nat.le_of_lt_succ n.toNat_lt)]
  simp

section

variable {A : Type} {read : Value → Option A} {f : A → Value}

/-- An option is read from either way of writing it. -/
theorem asOption_opt (hread : ∀ a, read (f a) = some a) (hnull : ∀ a, f a ≠ .null) (o : Option A) :
    asOption read (some (opt f o)) = some o := by
  cases o with
  | none => rfl
  | some a =>
    have hsome : asOption read (some (f a)) = (read (f a)).map some := by
      cases hf : f a with
      | null => exact absurd hf (hnull a)
      | _ => rfl
    exact hsome.trans (by rw [hread]; rfl)

theorem asOption_map (hread : ∀ a, read (f a) = some a) (hnull : ∀ a, f a ≠ .null) (o : Option A) :
    asOption read (o.map f) = some o := by
  cases o with
  | none => rfl
  | some a => exact asOption_opt hread hnull (some a)

theorem asList_map (hread : ∀ a, read (f a) = some a) (l : List A) : asList read (.array (l.map f)) = some l := by
  show (l.map f).mapM read = some l
  induction l with
  | nil => rfl
  | cons a l ih =>
    rw [List.map_cons, List.mapM_cons, hread, ih]
    rfl

end

@[simp] theorem asOption_opt_str (o : Option String) : asOption asStr (some (opt str o)) = some o :=
  asOption_opt asStr_str (fun _ h => by cases h) o

@[simp] theorem asOption_map_str (o : Option String) : asOption asStr (o.map str) = some o :=
  asOption_map asStr_str (fun _ h => by cases h) o

@[simp] theorem asOption_opt_u32 (o : Option UInt32) : asOption asU32 (some (opt (num ·.toNat) o)) = some o :=
  asOption_opt asU32_num (fun _ h => by cases h) o

@[simp] theorem ofValue_cycleStamp (stamp : CycleStampPayload) :
    CycleStampPayload.ofValue stamp.toValue = some stamp := by
  simp [CycleStampPayload.ofValue, CycleStampPayload.toValue, required, optional]

@[simp] theorem asOption_map_cycleStamp (o : Option CycleStampPayload) :
    asOption CycleStampPayload.ofValue (o.map CycleStampPayload.toValue) = some o :=
  asOption_map ofValue_cycleStamp (fun _ h => by cases h) o

/-- The fields of an event are found behind a field of another name. -/
theorem ofValue_event (name : String) (v : Value) (e : ImplantEvent) (hname : name ∉ ["event_type", "session_id",
    "timestamp", "payload", "topic_signal", "provider", "model_id", "cycle_stamp"]) :
    ImplantEvent.ofValue (.object (field name v ++ e.fields)) = some e := by
  simp only [List.mem_cons, List.not_mem_nil, or_false, not_or] at hname
  simp [ImplantEvent.ofValue, ImplantEvent.fields, required, optional, hname]

@[simp] theorem ofValue_event_alone (e : ImplantEvent) : ImplantEvent.ofValue (.object e.fields) = some e := by
  simp [ImplantEvent.ofValue, ImplantEvent.fields, required, optional]

/-- **A request is read from its value.** -/
theorem ofValue_fields (r : HookRequest) : HookRequest.ofValue (.object r.fields) = some r := by
  cases r with
  | ping => simp [HookRequest.ofValue, HookRequest.ofTagged, HookRequest.fields, required]
  | sessionRegister => simp [HookRequest.ofValue, HookRequest.ofTagged, HookRequest.fields, required, optional]
  | sessionClose => simp [HookRequest.ofValue, HookRequest.ofTagged, HookRequest.fields, required, optional]
  | recordEvent event =>
    simp [HookRequest.ofValue, HookRequest.ofTagged, HookRequest.fields, required, ofValue_event]
  | recordEvents events =>
    simp [HookRequest.ofValue, HookRequest.ofTagged, HookRequest.fields, required,
      asList_map (f := fun e : ImplantEvent => Value.object e.fields) ofValue_event_alone]
  | contextSearch => simp [HookRequest.ofValue, HookRequest.ofTagged, HookRequest.fields, required, optional]
  | briefing => simp [HookRequest.ofValue, HookRequest.ofTagged, HookRequest.fields, required, optional]
  | compactPayload =>
    simp [HookRequest.ofValue, HookRequest.ofTagged, HookRequest.fields, required, optional, asList_map asU64_num]

/-! ## A request is read from its text -/

section

variable {d : Dialect} {depth : Nat}

theorem fieldsWritable_append {fs gs : List (Text × Value)} (hf : FieldsWritable d depth fs)
    (hg : FieldsWritable d depth gs) : FieldsWritable d depth (fs ++ gs) := by
  induction fs with
  | nil => exact hg
  | cons f fs ih => exact ⟨hf.1, ih hf.2⟩

theorem writable_text (s : String) : Text.Writable d (text s) := writable_scalars d s.toList

theorem writable_str (s : String) : (str s).Writable d depth := writable_text s

theorem writable_opt {A : Type} {f : A → Value} (h : ∀ a, (f a).Writable d depth) (o : Option A) :
    (opt f o).Writable d depth := by
  cases o with
  | none => trivial
  | some a => exact h a

theorem writable_array {A : Type} {f : A → Value} (hd : (d.maxDepth.all fun n => decide (depth < n)) = true)
    {l : List A} (h : ∀ a ∈ l, (f a).Writable d (depth + 1)) : (Value.array (l.map f)).Writable d depth := by
  refine ⟨hd, ?_⟩
  induction l with
  | nil => trivial
  | cons a l ih =>
    exact ⟨h a List.mem_cons_self, ih fun b hb => h b (List.mem_cons_of_mem a hb)⟩

/-- Fields the dialect reads, with names among these and in their order. -/
structure Named (d : Dialect) (depth : Nat) (names : List String) (fs : List (Text × Value)) : Prop where
  writable : FieldsWritable d depth fs
  names : List.Sublist (fs.map Prod.fst) (names.map text)

theorem Named.append {names names' : List String} {fs gs : List (Text × Value)} (hf : Named d depth names fs)
    (hg : Named d depth names' gs) : Named d depth (names ++ names') (fs ++ gs) where
  writable := fieldsWritable_append hf.writable hg.writable
  names := by
    rw [List.map_append, List.map_append]
    exact hf.names.append hg.names

theorem named_field (name : String) {v : Value} (hv : v.Writable d depth) : Named d depth [name] (field name v) where
  writable := ⟨⟨writable_text name, hv⟩, trivial⟩
  names := List.Sublist.refl _

theorem named_skipNone {A : Type} (name : String) {f : A → Value} (h : ∀ a, (f a).Writable d depth) (o : Option A) :
    Named d depth [name] (skipNone name f o) := by
  cases o with
  | none => exact ⟨trivial, List.nil_sublist _⟩
  | some a => exact named_field name (h a)

theorem Named.object {names : List String} {fs : List (Text × Value)} (h : Named d (depth + 1) names fs)
    (hd : (d.maxDepth.all fun n => decide (depth < n)) = true) (hnames : names.Nodup) :
    (Value.object fs).Writable d depth :=
  ⟨hd, h.names.nodup (List.Nodup.map (fun a b hab => (text_eq_iff a b).mp hab) hnames), h.writable⟩

end

section

variable {inRange : List Char → Bool}

/-- The depth of what stands in `depth` values. -/
theorem shallow {depth : Nat} (h : depth < 127) :
    ((serdeJson inRange).maxDepth.all fun n => decide (depth < n)) = true :=
  decide_eq_true h

theorem writable_cycleStamp {depth : Nat} (hdepth : depth < 126) (stamp : CycleStampPayload) :
    stamp.toValue.Writable (serdeJson inRange) depth :=
  ((named_field "topic" (writable_str _)).append (named_skipNone "phase" writable_str _)).object (shallow (by omega))
    (by decide)

/-- The numbers of a request are in range. -/
def Integers (inRange : List Char → Bool) : Prop := ∀ n ≤ 0xFFFFFFFFFFFFFFFF, inRange (Nat.toDigits 10 n) = true

variable (hrange : Integers inRange)
include hrange

theorem writable_u64 {depth : Nat} (n : UInt64) : (num n.toNat).Writable (serdeJson inRange) depth :=
  ⟨isNumber_toDigits _, hrange _ (Nat.le_of_lt_succ n.toNat_lt)⟩

theorem writable_u32 {depth : Nat} (n : UInt32) : (num n.toNat).Writable (serdeJson inRange) depth :=
  ⟨isNumber_toDigits _, hrange _ (le_trans (Nat.le_of_lt n.toNat_lt) (by decide))⟩

/-- The names of the fields of an event. -/
def eventNames : List String :=
  [] ++ ["event_type"] ++ ["session_id"] ++ ["timestamp"] ++ ["payload"] ++ ["topic_signal"] ++ ["provider"] ++
    ["model_id"] ++ ["cycle_stamp"]

theorem named_event {depth : Nat} (hdepth : depth < 126) {e : ImplantEvent}
    (he : e.payload.Writable (serdeJson inRange) depth) : Named (serdeJson inRange) depth eventNames e.fields :=
  (((((((named_field "event_type" (writable_str _)).append (named_field "session_id" (writable_str _))).append
    (named_field "timestamp" (writable_u64 hrange _))).append (named_field "payload" he)).append
    (named_skipNone "topic_signal" writable_str _)).append (named_skipNone "provider" writable_str _)).append
    (named_skipNone "model_id" writable_str _)).append
    (named_skipNone "cycle_stamp" (writable_cycleStamp hdepth) _)

/-- The payloads of a request, and in how many values they stand. -/
def HookRequest.payloads : HookRequest → List (Nat × Value)
  | .recordEvent event => [(1, event.payload)]
  | .recordEvents events => events.map fun e => (3, e.payload)
  | _ => []

theorem writable_fields {r : HookRequest} (hr : ∀ p ∈ r.payloads, p.2.Writable (serdeJson inRange) p.1) :
    (Value.object r.fields).Writable (serdeJson inRange) 0 := by
  have hu64 {depth : Nat} (n : UInt64) : (num n.toNat).Writable (serdeJson inRange) depth := writable_u64 hrange n
  have hu32 {depth : Nat} (n : UInt32) : (num n.toNat).Writable (serdeJson inRange) depth := writable_u32 hrange n
  cases r with
  | ping => exact (named_field "type" (writable_str _)).object (shallow (by decide)) (by decide)
  | sessionRegister =>
    exact (((((named_field "type" (writable_str _)).append (named_field "session_id" (writable_str _))).append
      (named_field "cwd" (writable_str _))).append (named_field "agent_role" (writable_opt writable_str _))).append
      (named_field "feature" (writable_opt writable_str _))).object (shallow (by decide)) (by decide)
  | sessionClose =>
    exact ((((named_field "type" (writable_str _)).append (named_field "session_id" (writable_str _))).append
      (named_field "outcome" (writable_opt writable_str _))).append (named_field "duration_secs" (hu64 _))).object
      (shallow (by decide)) (by decide)
  | recordEvent event =>
    exact ((named_field "type" (writable_str _)).append
      (named_event hrange (show 1 < 126 by decide) (hr _ List.mem_cons_self))).object (shallow (by decide)) (by decide)
  | recordEvents events =>
    refine ((named_field "type" (writable_str _)).append (named_field "events" ?_)).object (shallow (by decide))
      (by decide)
    refine writable_array (shallow (by decide)) fun e he => ?_
    exact (named_event hrange (show 3 < 126 by decide) (hr (3, e.payload) (List.mem_map_of_mem he))).object (shallow (by decide)) (by decide)
  | contextSearch =>
    exact ((((((((((named_field "type" (writable_str _)).append (named_field "query" (writable_str _))).append
      (named_field "session_id" (writable_opt writable_str _))).append
      (named_field "role" (writable_opt writable_str _))).append (named_field "task" (writable_opt writable_str _))).append
      (named_field "feature" (writable_opt writable_str _))).append (named_field "k" (writable_opt hu32 _))).append
      (named_field "max_tokens" (writable_opt hu32 _))).append (named_skipNone "source" writable_str _)).append
      (named_skipNone "accept" writable_str _)).object (shallow (by decide)) (by decide)
  | briefing =>
    exact (((((named_field "type" (writable_str _)).append (named_field "role" (writable_str _))).append
      (named_field "task" (writable_str _))).append (named_field "feature" (writable_opt writable_str _))).append
      (named_field "max_tokens" (writable_opt hu32 _))).object (shallow (by decide)) (by decide)
  | compactPayload =>
    exact ((((((((named_field "type" (writable_str _)).append (named_field "session_id" (writable_str _))).append
      (named_field "injected_entry_ids" (writable_array (shallow (by decide)) fun _ _ => hu64 _))).append
      (named_field "role" (writable_opt writable_str _))).append
      (named_field "feature" (writable_opt writable_str _))).append
      (named_field "token_limit" (writable_opt hu32 _))).append
      (named_skipNone "transcript_excerpt" writable_str _)).append (named_skipNone "accept" writable_str _)).object
      (shallow (by decide)) (by decide)

end

theorem fromUtf8_encode (cs : List Char) : fromUtf8 (Utf8.encode cs) = some cs := by
  unfold fromUtf8
  rw [Utf8.decode_encode, if_pos rfl]

/-- What the server makes of the text of a value. -/
theorem deserialize_stringify {inRange : List Char → Bool} {v : Value} (hv : v.Writable (serdeJson inRange) 0) :
    deserializeRequest inRange (Utf8.encode (stringify v)) = HookRequest.ofValue v := by
  unfold deserializeRequest
  rw [fromUtf8_encode, Option.bind_eq_bind, Option.bind_some, parse_stringify hv]
  rfl

/-- The `type` of a request. -/
def HookRequest.typeName : HookRequest → String
  | .ping => "Ping"
  | .sessionRegister .. => "SessionRegister"
  | .sessionClose .. => "SessionClose"
  | .recordEvent .. => "RecordEvent"
  | .recordEvents .. => "RecordEvents"
  | .contextSearch .. => "ContextSearch"
  | .briefing .. => "Briefing"
  | .compactPayload .. => "CompactPayload"

/-- The request with the answer it wants as text, where it can say so. -/
def HookRequest.accepting : HookRequest → HookRequest
  | .contextSearch query sessionId role task feature k maxTokens source _ =>
    .contextSearch query sessionId role task feature k maxTokens source (some "text/plain")
  | .compactPayload sessionId injectedEntryIds role feature tokenLimit transcriptExcerpt _ =>
    .compactPayload sessionId injectedEntryIds role feature tokenLimit transcriptExcerpt (some "text/plain")
  | r => r

theorem text_of_ofText {t : Text} {s : String} (h : ofText t = some s) : t = text s := by
  unfold ofText at h
  obtain ⟨cs, hcs, rfl⟩ := Option.map_eq_some_iff.mp h
  have hmap : ∀ (t : Text) (cs : List Char), t.mapM (fun p => match p with
      | CodePoint.scalar c => some c
      | CodePoint.lone _ => none) = some cs → t = cs.map CodePoint.scalar := by
    intro t
    induction t with
    | nil =>
      intro cs h
      cases h
      rfl
    | cons p t ih =>
      intro cs h
      rw [List.mapM_cons] at h
      obtain ⟨c, hc, hrest⟩ := Option.bind_eq_some_iff.mp h
      obtain ⟨cs', hcs', hpure⟩ := Option.bind_eq_some_iff.mp hrest
      cases hpure
      cases p with
      | lone u => cases hc
      | scalar c' =>
        cases hc
        rw [List.map_cons, ← ih cs' hcs']
  rw [hmap t cs hcs, text, String.toList_ofList]

theorem eq_str_of_asStr {v : Value} {s : String} (h : asStr v = some s) : v = str s := by
  cases v with
  | string t => rw [text_of_ofText h]; rfl
  | _ => cases h

theorem typeName_of_ofTagged {v : Value} {type : String} {r : HookRequest}
    (h : HookRequest.ofTagged v type = some r) : r.typeName = type := by
  unfold HookRequest.ofTagged at h
  simp only [Option.pure_def, Option.bind_eq_bind] at h
  split at h
  · cases h
    rfl
  · simp only [Option.bind_eq_some_iff] at h
    obtain ⟨_, -, _, -, _, -, _, -, h⟩ := h
    cases h
    rfl
  · simp only [Option.bind_eq_some_iff] at h
    obtain ⟨_, -, _, -, _, -, h⟩ := h
    cases h
    rfl
  · simp only [Option.bind_eq_some_iff] at h
    obtain ⟨_, -, h⟩ := h
    cases h
    rfl
  · simp only [Option.bind_eq_some_iff] at h
    obtain ⟨_, -, h⟩ := h
    cases h
    rfl
  · simp only [Option.bind_eq_some_iff] at h
    obtain ⟨_, -, _, -, _, -, _, -, _, -, _, -, _, -, _, -, _, -, h⟩ := h
    cases h
    rfl
  · simp only [Option.bind_eq_some_iff] at h
    obtain ⟨_, -, _, -, _, -, _, -, h⟩ := h
    cases h
    rfl
  · simp only [Option.bind_eq_some_iff] at h
    obtain ⟨_, -, _, -, _, -, _, -, _, -, _, -, _, -, h⟩ := h
    cases h
    rfl
  · cases h

/-- The requests that can say which answer they want. -/
def HookRequest.saysAccept (r : HookRequest) : Bool := r.typeName == "ContextSearch" || r.typeName == "CompactPayload"

theorem accepting_of_not {r : HookRequest} (h : r.saysAccept = false) : r.accepting = r := by
  cases r with
  | contextSearch => cases h
  | compactPayload => cases h
  | _ => rfl

section

variable {v v' : Value} (hget : ∀ m, m ≠ "accept" → v'.get m = v.get m)
  (haccept : v'.get "accept" = some (str "text/plain"))
include hget haccept

/-- What is read when `accept` is written into a value. -/
theorem ofTagged_accept {type : String} {r : HookRequest} (h : HookRequest.ofTagged v type = some r)
    (htype : type = "ContextSearch" ∨ type = "CompactPayload") :
    HookRequest.ofTagged v' type = some r.accepting := by
  have hasked : asOption asStr (some (str "text/plain")) = some (some "text/plain") :=
    asOption_opt_str (some "text/plain")
  have hreq {A : Type} (read : Value → Option A) (m : String) (hm : m ≠ "accept") :
      required read v' m = required read v m := by rw [required, hget m hm, required]
  have hopt {A : Type} (read : Value → Option A) (m : String) (hm : m ≠ "accept") :
      optional read v' m = optional read v m := by rw [optional, hget m hm, optional]
  have hopt' : optional asStr v' "accept" = some (some "text/plain") := by rw [optional, haccept, hasked]
  obtain rfl | rfl := htype
  all_goals
    simp only [HookRequest.ofTagged, Option.pure_def, Option.bind_eq_bind] at h ⊢
    simp (disch := decide) only [hreq, hopt, hopt']
  · simp only [Option.bind_eq_some_iff] at h
    obtain ⟨query, hquery, sessionId, hsessionId, role, hrole, task, htask, feature, hfeature, k, hk, maxTokens,
      hmaxTokens, source, hsource, accept, -, h⟩ := h
    cases h
    simp only [hquery, hsessionId, hrole, htask, hfeature, hk, hmaxTokens, hsource, Option.bind_some]
    rfl
  · simp only [Option.bind_eq_some_iff] at h
    obtain ⟨sessionId, hsessionId, ids, hids, role, hrole, feature, hfeature, tokenLimit, htokenLimit, excerpt,
      hexcerpt, accept, -, h⟩ := h
    cases h
    simp only [hsessionId, hids, hrole, hfeature, htokenLimit, hexcerpt, Option.bind_some]
    rfl

end

/-- The type of a request, as it stands in its value. -/
theorem type_of_ofValue {v : Value} {r : HookRequest} (h : HookRequest.ofValue v = some r) :
    v.get "type" = some (str r.typeName) ∧ HookRequest.ofTagged v r.typeName = some r := by
  obtain ⟨type, htype, h⟩ := Option.bind_eq_some_iff.mp h
  obtain ⟨w, hget, hw⟩ := Option.bind_eq_some_iff.mp htype
  have hname := typeName_of_ofTagged h
  rw [hname]
  exact ⟨by rw [hget, eq_str_of_asStr hw], h⟩

theorem get_setField {fields : List (Text × Value)} {name : String} {v : Value} (m : String) :
    (Value.object (setField fields (text name) v)).get m = if name = m then some v else (Value.object fields).get m := by
  show ((setField fields (text name) v).find? fun f => f.1 = text m).map Prod.snd = _
  rw [find?_setField]
  simp only [text_eq_iff]
  rfl

/-- **What the client makes of a frame that says a request says the request the client means.** -/
theorem ofValue_payloadObj {frame : List (Text × Value)} {r : HookRequest}
    (h : HookRequest.ofValue (.object frame) = some r) (sync : Bool) :
    HookRequest.ofValue (.object (payloadObj frame sync)) = some (if sync then r.accepting else r) := by
  obtain ⟨htype, htagged⟩ := type_of_ofValue h
  unfold payloadObj
  rw [htype]
  show HookRequest.ofValue (.object (if (sync && syncAcceptTypes.contains (text r.typeName)) = true then _ else _)) = _
  have hcontains : syncAcceptTypes.contains (text r.typeName) = r.saysAccept := by
    simp [syncAcceptTypes, HookRequest.saysAccept, text_eq_iff, beq_eq_decide]
  rw [hcontains]
  cases sync with
  | false => exact h
  | true =>
    cases hsays : r.saysAccept with
    | false =>
      simp only [Bool.and_false, Bool.false_eq_true, if_false, if_true]
      rw [accepting_of_not hsays]
      exact h
    | true =>
      simp only [Bool.and_self, if_true]
      have hget : ∀ m, m ≠ "accept" → (Value.object (setField frame (text "accept")
          (.string (text "text/plain")))).get m = (Value.object frame).get m := fun m hm => by
        rw [get_setField, if_neg (Ne.symm hm)]
      have haccept : (Value.object (setField frame (text "accept") (.string (text "text/plain")))).get "accept" =
          some (str "text/plain") := by
        rw [get_setField, if_pos rfl]
        rfl
      unfold HookRequest.ofValue required
      rw [hget "type" (by decide), htype, Option.bind_some, asStr_str, Option.bind_some]
      refine ofTagged_accept hget haccept htagged ?_
      simpa [HookRequest.saysAccept] using hsays

theorem writable_payloadObj {d : Dialect} {frame : List (Text × Value)} (h : (Value.object frame).Writable d 0)
    (sync : Bool) : (Value.object (payloadObj frame sync)).Writable d 0 := by
  unfold payloadObj
  split
  · split
    · exact writable_setField h (writable_text "accept") (writable_text "text/plain")
    · exact h
  · exact h

end Unimatrix.Wire
