import Mathlib.Data.List.Basic

/-!
# Reading JSON

`parse` reads a text of one JSON value, character by character: `State` is the values that are open (`Frame`) and
what is expected or being read (`Mode`).

* A string is its code points; `CodePoint.lone` is a surrogate without its other half, which an escape can write.
  A number is kept as its text.
* An object has its fields in the order in which their names are first written, with the values written last.
* Parsers agree on the grammar and differ in what else they refuse: a `Dialect` bounds how deep values may be nested,
  and says whether strings may have lone surrogates and which numbers are in range.

**`Dialect.Extends.parse`**: a dialect that refuses less reads whatever the other reads, as the same value.
-/

namespace Json

/-- A code point of a string. -/
inductive CodePoint where
  | scalar (c : Char)
  | lone (unit : Nat)
  deriving DecidableEq

/-- A string. -/
abbrev Text := List CodePoint

/-- A text without lone surrogates. -/
def text (s : String) : Text := s.toList.map .scalar

/-- A value. -/
inductive Value where
  | null
  | bool (b : Bool)
  | number (digits : List Char)
  | string (s : Text)
  | array (items : List Value)
  | object (fields : List (Text × Value))

/-- What a parser accepts beyond the grammar. -/
structure Dialect where
  maxDepth : Option Nat
  loneSurrogates : Bool
  inRange : List Char → Bool

/-! ## Values -/

/-- The value of a field. -/
def Value.get (v : Value) (name : String) : Option Value :=
  match v with
  | .object fields => (fields.find? fun f => f.1 = text name).map Prod.snd
  | _ => none

/-- The string that a value is. -/
def Value.asString : Value → Option Text
  | .string s => some s
  | _ => none

/-- The items of the array that a value is. -/
def Value.asArray : Value → Option (List Value)
  | .array items => some items
  | _ => none

/-- The fields of the object that a value is. -/
def Value.asObject : Value → Option (List (Text × Value))
  | .object fields => some fields
  | _ => none

/-- Write a field: a name that is there keeps its place. -/
def setField (fields : List (Text × Value)) (name : Text) (v : Value) : List (Text × Value) :=
  if fields.any fun f => f.1 = name then fields.map fun f => if f.1 = name then (name, v) else f
  else fields ++ [(name, v)]

/-! ## UTF-16 -/

/-- The code units of a character. -/
def units (c : Char) : List Nat :=
  let v := c.toNat
  if v < 0x10000 then [v] else [0xD800 + (v - 0x10000) / 0x400, 0xDC00 + (v - 0x10000) % 0x400]

/-- The first half of a pair. -/
def isHigh (u : Nat) : Bool := 0xD800 ≤ u && u ≤ 0xDBFF

/-- The second half. -/
def isLow (u : Nat) : Bool := 0xDC00 ≤ u && u ≤ 0xDFFF

/-- A code unit that is not part of a pair. -/
def single (u : Nat) : CodePoint := if isHigh u || isLow u then .lone u else .scalar (Char.ofNat u)

/-- The code points of code units. -/
def codePoints : List Nat → Text
  | [] => []
  | [u] => [single u]
  | u :: v :: us =>
    if isHigh u && isLow v then
      .scalar (Char.ofNat (0x10000 + (u - 0xD800) * 0x400 + (v - 0xDC00))) :: codePoints us
    else single u :: codePoints (v :: us)

/-- No surrogate is without its other half. -/
def wellFormed (s : Text) : Bool := s.all fun p => match p with
  | .scalar _ => true
  | .lone _ => false

/-! ## The machine -/

/-- A value that is open. -/
inductive Frame where
  | array (items : List Value)
  | object (fields : List (Text × Value)) (name : Text)

/-- Within a string: plain text, after a backslash, or in a `\u` escape of which `n` digits are missing. -/
inductive Escape where
  | plain
  | backslash
  | hex (n value : Nat)

/-- How far a number has been read. -/
inductive Number where
  | minus
  | zero
  | integer
  | point
  | fraction
  | exponent
  | sign
  | power
  deriving DecidableEq

/-- What is expected or being read. -/
inductive Mode where
  | value
  | firstItem
  | firstName
  | name
  | colon
  | next
  | word (rest : List Char) (v : Value)
  | number (n : Number) (digits : List Char)
  | string (isName : Bool) (us : List Nat) (e : Escape)
  | done (v : Value)

/-- Where the parser is. -/
structure State where
  stack : List Frame
  mode : Mode

/-- Whitespace. -/
def isSpace (c : Char) : Bool := c == ' ' || c == '\t' || c == '\n' || c == '\r'

/-- A value has been read. -/
def finish (v : Value) : List Frame → State
  | [] => ⟨[], .done v⟩
  | .array items :: stack => ⟨.array (items ++ [v]) :: stack, .next⟩
  | .object fields name :: stack => ⟨.object (setField fields name v) name :: stack, .next⟩

/-- The number goes on with `c`. -/
def Number.next (n : Number) (c : Char) : Option Number :=
  match n with
  | .minus => if c == '0' then some .zero else if c.isDigit then some .integer else none
  | .zero => if c == '.' then some .point else if c == 'e' || c == 'E' then some .exponent else none
  | .integer =>
    if c.isDigit then some .integer else if c == '.' then some .point
    else if c == 'e' || c == 'E' then some .exponent else none
  | .point => if c.isDigit then some .fraction else none
  | .fraction => if c.isDigit then some .fraction else if c == 'e' || c == 'E' then some .exponent else none
  | .exponent => if c == '+' || c == '-' then some .sign else if c.isDigit then some .power else none
  | .sign => if c.isDigit then some .power else none
  | .power => if c.isDigit then some .power else none

/-- The number can end here. -/
def Number.complete : Number → Bool
  | .zero | .integer | .fraction | .power => true
  | _ => false

/-- The character a letter after a backslash stands for. -/
def escaped (c : Char) : Option Nat :=
  if c == '"' || c == '\\' || c == '/' then some c.toNat
  else if c == 'b' then some 0x08
  else if c == 'f' then some 0x0C
  else if c == 'n' then some 0x0A
  else if c == 'r' then some 0x0D
  else if c == 't' then some 0x09
  else none

/-- A hexadecimal digit. -/
def hexValue (c : Char) : Option Nat :=
  if '0' ≤ c ∧ c ≤ '9' then some (c.toNat - '0'.toNat)
  else if 'a' ≤ c ∧ c ≤ 'f' then some (c.toNat - 'a'.toNat + 10)
  else if 'A' ≤ c ∧ c ≤ 'F' then some (c.toNat - 'A'.toNat + 10)
  else none

namespace Dialect

variable (d : Dialect)

/-- A value is opened. -/
def push (stack : List Frame) (f : Frame) (m : Mode) : Option State :=
  if d.maxDepth.all fun n => decide (stack.length < n) then some ⟨f :: stack, m⟩ else none

/-- Where a value is expected. -/
def stepValue (stack : List Frame) (mode : Mode) (c : Char) : Option State :=
  if isSpace c then some ⟨stack, mode⟩
  else if c == '{' then d.push stack (.object [] []) .firstName
  else if c == '[' then d.push stack (.array []) .firstItem
  else if c == '"' then some ⟨stack, .string false [] .plain⟩
  else if c == '-' then some ⟨stack, .number .minus [c]⟩
  else if c == '0' then some ⟨stack, .number .zero [c]⟩
  else if c.isDigit then some ⟨stack, .number .integer [c]⟩
  else if c == 't' then some ⟨stack, .word ['r', 'u', 'e'] (.bool true)⟩
  else if c == 'f' then some ⟨stack, .word ['a', 'l', 's', 'e'] (.bool false)⟩
  else if c == 'n' then some ⟨stack, .word ['u', 'l', 'l'] .null⟩
  else none

/-- A string ends: a name, or a value. -/
def closeString (stack : List Frame) (isName : Bool) (us : List Nat) : Option State :=
  let s := codePoints us
  if d.loneSurrogates || wellFormed s then
    if isName then
      match stack with
      | .object fields _ :: stack => some ⟨.object fields s :: stack, .colon⟩
      | _ => none
    else some (finish (.string s) stack)
  else none

end Dialect

/-- Where a name is expected. -/
def stepName (stack : List Frame) (mode : Mode) (c : Char) : Option State :=
  if isSpace c then some ⟨stack, mode⟩
  else if c == '"' then some ⟨stack, .string true [] .plain⟩
  else none

/-- After a value. -/
def stepNext (s : State) (c : Char) : Option State :=
  if isSpace c then some s
  else
    match s.mode, s.stack with
    | .next, .array items :: stack =>
      if c == ',' then some ⟨s.stack, .value⟩
      else if c == ']' then some (finish (.array items) stack) else none
    | .next, .object fields _ :: stack =>
      if c == ',' then some ⟨s.stack, .name⟩
      else if c == '}' then some (finish (.object fields) stack) else none
    | _, _ => none

/-- Within a string. -/
def stepString (d : Dialect) (stack : List Frame) (isName : Bool) (us : List Nat) (c : Char) :
    Escape → Option State
  | .plain =>
    if c == '"' then d.closeString stack isName us
    else if c == '\\' then some ⟨stack, .string isName us .backslash⟩
    else if c.toNat < 0x20 then none
    else some ⟨stack, .string isName (us ++ units c) .plain⟩
  | .backslash =>
    if c == 'u' then some ⟨stack, .string isName us (.hex 4 0)⟩
    else (escaped c).map fun u => ⟨stack, .string isName (us ++ [u]) .plain⟩
  | .hex n value =>
    (hexValue c).map fun digit =>
      if n ≤ 1 then ⟨stack, .string isName (us ++ [value * 16 + digit]) .plain⟩
      else ⟨stack, .string isName us (.hex (n - 1) (value * 16 + digit))⟩

/-- Within a number, or right after it. -/
def stepNumber (d : Dialect) (stack : List Frame) (n : Number) (digits : List Char) (c : Char) : Option State :=
  match n.next c with
  | some n => some ⟨stack, .number n (digits ++ [c])⟩
  | none => if n.complete && d.inRange digits then stepNext (finish (.number digits) stack) c else none

/-- Read a character. -/
def step (d : Dialect) (s : State) (c : Char) : Option State :=
  match s.mode with
  | .value => d.stepValue s.stack .value c
  | .firstItem =>
    match s.stack with
    | .array items :: stack =>
      if c == ']' then some (finish (.array items) stack) else d.stepValue s.stack .firstItem c
    | _ => none
  | .firstName =>
    match s.stack with
    | .object fields _ :: stack =>
      if c == '}' then some (finish (.object fields) stack) else stepName s.stack .firstName c
    | _ => none
  | .name => stepName s.stack .name c
  | .colon =>
    if isSpace c then some s else if c == ':' then some ⟨s.stack, .value⟩ else none
  | .word (r :: rest) v =>
    if c == r then some (if rest.isEmpty then finish v s.stack else ⟨s.stack, .word rest v⟩) else none
  | .word [] _ => none
  | .number n digits => stepNumber d s.stack n digits c
  | .string isName us e => stepString d s.stack isName us c e
  | .next | .done _ => stepNext s c

/-- Read on. -/
def run (d : Dialect) : State → List Char → Option State
  | s, [] => some s
  | s, c :: cs => (step d s c).bind fun s => run d s cs

/-- The value, at the end of the text. -/
def result (d : Dialect) (s : State) : Option Value :=
  match s.stack, s.mode with
  | [], .done v => some v
  | [], .number n digits => if n.complete && d.inRange digits then some (.number digits) else none
  | _, _ => none

/-- Read a text. -/
def parse (d : Dialect) (cs : List Char) : Option Value := (run d ⟨[], .value⟩ cs).bind (result d)

/-! ## What is refused -/

/-- Whether a value can begin with `c`. -/
def startsValue (c : Char) : Bool :=
  c == '{' || c == '[' || c == '"' || c == '-' || c.isDigit || c == 't' || c == 'f' || c == 'n'

theorem stepValue_of_not {d : Dialect} {c : Char} (h : startsValue c = false) (stack : List Frame) (mode : Mode) :
    d.stepValue stack mode c = if isSpace c then some ⟨stack, mode⟩ else none := by
  unfold startsValue at h
  simp only [Bool.or_eq_false_iff] at h
  obtain ⟨⟨⟨⟨⟨⟨⟨h1, h2⟩, h3⟩, h4⟩, h5⟩, h6⟩, h7⟩, h8⟩ := h
  have hzero : (c == '0') = false := by
    refine beq_false_of_ne fun he => ?_
    rw [he] at h5
    exact absurd h5 (by decide)
  unfold Dialect.stepValue
  simp only [h1, h2, h3, h4, h5, h6, h7, h8, hzero, Bool.false_eq_true, if_false]

/-- A text in which no value begins. -/
theorem parse_eq_none (d : Dialect) {cs : List Char} (h : ∀ c ∈ cs, startsValue c = false) : parse d cs = none := by
  have hrun : ∀ s ∈ run d ⟨[], .value⟩ cs, s = ⟨[], .value⟩ := by
    induction cs with
    | nil =>
      rintro s hs
      exact (Option.some.inj hs).symm
    | cons c cs ih =>
      intro s hs
      have hstep : step d ⟨[], .value⟩ c = _ := stepValue_of_not (h c List.mem_cons_self) [] .value
      unfold run at hs
      rw [hstep] at hs
      split at hs
      · exact ih (fun c hc => h c (List.mem_cons_of_mem _ hc)) s hs
      · cases hs
  unfold parse
  cases hr : run d ⟨[], .value⟩ cs with
  | none => rfl
  | some s =>
    rw [hrun s hr]
    rfl

/-- A text that begins otherwise. -/
theorem parse_cons_eq_none (d : Dialect) {c : Char} (hspace : isSpace c = false) (h : startsValue c = false)
    (cs : List Char) : parse d (c :: cs) = none := by
  have hstep : step d ⟨[], .value⟩ c = _ := stepValue_of_not h [] .value
  unfold parse run
  rw [hstep, hspace]
  rfl

/-! ## Dialects -/

/-- What `d` accepts, `d'` accepts. -/
structure Dialect.Extends (d' d : Dialect) : Prop where
  depth : ∀ n, (d.maxDepth.all fun m => decide (n < m)) → d'.maxDepth.all fun m => decide (n < m)
  lone : d.loneSurrogates → d'.loneSurrogates
  range : ∀ digits, d.inRange digits → d'.inRange digits

namespace Dialect.Extends

variable {d' d : Dialect} (h : d'.Extends d)
include h

theorem push {stack : List Frame} {f : Frame} {m : Mode} {s : State} (hs : d.push stack f m = some s) :
    d'.push stack f m = some s := by
  unfold Dialect.push at hs ⊢
  split at hs
  · rename_i hd
    rwa [if_pos (h.depth _ hd)]
  · cases hs

theorem stepValue {stack : List Frame} {m : Mode} {c : Char} {s : State} (hs : d.stepValue stack m c = some s) :
    d'.stepValue stack m c = some s := by
  unfold Dialect.stepValue at hs ⊢
  by_cases hspace : isSpace c = true
  · rwa [if_pos hspace] at hs ⊢
  rw [if_neg hspace] at hs ⊢
  by_cases hobject : (c == '{') = true
  · rw [if_pos hobject] at hs ⊢
    exact h.push hs
  rw [if_neg hobject] at hs ⊢
  by_cases harray : (c == '[') = true
  · rw [if_pos harray] at hs ⊢
    exact h.push hs
  rwa [if_neg harray] at hs ⊢

theorem closeString {stack : List Frame} {isName : Bool} {us : List Nat} {s : State}
    (hs : d.closeString stack isName us = some s) : d'.closeString stack isName us = some s := by
  unfold Dialect.closeString at hs ⊢
  simp only at hs ⊢
  split at hs
  · rename_i hd
    have hd' : (d'.loneSurrogates || wellFormed (codePoints us)) = true := by
      rcases Bool.or_eq_true_iff.mp hd with hd | hd
      · exact Bool.or_eq_true_iff.mpr (.inl (h.lone hd))
      · exact Bool.or_eq_true_iff.mpr (.inr hd)
    rwa [if_pos hd']
  · cases hs

theorem stepString {stack : List Frame} {isName : Bool} {us : List Nat} {c : Char} {e : Escape} {s : State}
    (hs : Json.stepString d stack isName us c e = some s) : Json.stepString d' stack isName us c e = some s := by
  cases e with
  | plain =>
    simp only [Json.stepString] at hs ⊢
    split
    · rename_i hc
      rw [if_pos hc] at hs
      exact h.closeString hs
    · rename_i hc
      rwa [if_neg hc] at hs
  | backslash => exact hs
  | hex n value => exact hs

theorem stepNumber {stack : List Frame} {n : Number} {digits : List Char} {c : Char} {s : State}
    (hs : Json.stepNumber d stack n digits c = some s) : Json.stepNumber d' stack n digits c = some s := by
  unfold Json.stepNumber at hs ⊢
  split
  · rename_i hn
    rwa [hn] at hs
  · rename_i hn
    rw [hn] at hs
    simp only at hs
    split at hs
    · rename_i hd
      obtain ⟨hcomplete, hrange⟩ := Bool.and_eq_true_iff.mp hd
      rwa [if_pos (Bool.and_eq_true_iff.mpr ⟨hcomplete, h.range _ hrange⟩)]
    · cases hs

theorem step {s s' : State} {c : Char} (hs : Json.step d s c = some s') : Json.step d' s c = some s' := by
  obtain ⟨stack, mode⟩ := s
  cases mode with
  | value => exact h.stepValue hs
  | firstItem =>
    cases stack with
    | nil => exact hs
    | cons f stack =>
      cases f with
      | object fields name => exact hs
      | array items =>
        simp only [Json.step] at hs ⊢
        split
        · rename_i hc
          rwa [if_pos hc] at hs
        · rename_i hc
          rw [if_neg hc] at hs
          exact h.stepValue hs
  | firstName => exact hs
  | name => exact hs
  | colon => exact hs
  | next => exact hs
  | word rest v => cases rest <;> exact hs
  | number n digits => exact h.stepNumber hs
  | string isName us e => exact h.stepString hs
  | done v => exact hs

theorem run {s s' : State} {cs : List Char} (hs : Json.run d s cs = some s') : Json.run d' s cs = some s' := by
  induction cs generalizing s with
  | nil => exact hs
  | cons c cs ih =>
    obtain ⟨s₁, hstep, hrun⟩ := Option.bind_eq_some_iff.mp hs
    exact Option.bind_eq_some_iff.mpr ⟨s₁, h.step hstep, ih hrun⟩

theorem result {s : State} {v : Value} (hs : Json.result d s = some v) : Json.result d' s = some v := by
  unfold Json.result at hs ⊢
  split at hs
  · exact hs
  · split at hs
    · rename_i hd
      obtain ⟨hcomplete, hrange⟩ := Bool.and_eq_true_iff.mp hd
      rwa [if_pos (Bool.and_eq_true_iff.mpr ⟨hcomplete, h.range _ hrange⟩)]
    · cases hs
  · cases hs

/-- **What one dialect reads, the other reads as the same value.** -/
theorem parse {cs : List Char} {v : Value} (hs : Json.parse d cs = some v) : Json.parse d' cs = some v := by
  obtain ⟨s, hrun, hresult⟩ := Option.bind_eq_some_iff.mp hs
  exact Option.bind_eq_some_iff.mpr ⟨s, h.run hrun, h.result hresult⟩

end Dialect.Extends

end Json
