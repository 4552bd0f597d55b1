import Mathlib.Data.List.Basic

/-!
# Strings and values

A string is the list of its UTF-16 code units, a value what `JSON.parse` returns. A number is the bits of its double, an
object its fields in the order of their names.
-/

namespace Unimatrix.Install

/-- A text: its code units. -/
abbrev Text : Type := List UInt16

/-- The code unit of an ASCII character. -/
def unit (c : Char) : UInt16 := UInt16.ofNat c.toNat

/-- The text of an ASCII string. -/
def units (s : String) : Text := s.toList.map unit

/-- All units of a text are tried one after the other, and not all there are. -/
theorem forall_mem_of_all {p : UInt16 → Prop} [DecidablePred p] {s : Text} (h : s.all (fun c => p c) = true) :
    ∀ c ∈ s, p c :=
  fun c hc => of_decide_eq_true (List.all_eq_true.mp h c hc)

/-- `\s` of a regular expression. -/
def isSpace (c : UInt16) : Bool :=
  (0x09 ≤ c && c ≤ 0x0D) || c == 0x20 || c == 0xA0 || c == 0x1680 || (0x2000 ≤ c && c ≤ 0x200A) ||
    c == 0x2028 || c == 0x2029 || c == 0x202F || c == 0x205F || c == 0x3000 || c == 0xFEFF

/-- A value. -/
inductive JsValue where
  | null
  | bool (b : Bool)
  | number (bits : UInt64)
  | string (s : Text)
  | array (items : List JsValue)
  | object (fields : List (Text × JsValue))

/-- A property of a value; what is no object has none that is asked for here. -/
def JsValue.get (v : JsValue) (name : Text) : Option JsValue :=
  match v with
  | .object fields => (fields.find? fun f => f.1 = name).map Prod.snd
  | _ => none

end Unimatrix.Install
