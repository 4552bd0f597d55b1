import Unimatrix.Lib.Decimal
import Unimatrix.Lib.Encode
import Unimatrix.Lib.Json

/-!
# Writing JSON

`write` is the text of a value without any space, where `esc` writes the code points of its strings.

**`parse_write`**: a value that is `Writable` in a dialect is read back from its text, whatever escapes are used, if
each of them stands for its code point (`Escapes`). Writable means: names differ within an object, numbers are numbers
and in range, strings are read as they stand in UTF-16, and values are not nested deeper than the dialect allows.
-/

namespace Json

/-! ## The text of a value -/

section

variable (esc : CodePoint → List Char)

/-- The text of a string. -/
def writeText (s : Text) : List Char := '"' :: (s.flatMap esc ++ ['"'])

mutual

/-- The text of a value. -/
def write : Value → List Char
  | .null => "null".toList
  | .bool b => (toString b).toList
  | .number digits => digits
  | .string s => writeText esc s
  | .array items => '[' :: ([','].intercalate (writeItems items) ++ [']'])
  | .object fields => '{' :: ([','].intercalate (writeFields fields) ++ ['}'])

def writeItems : List Value → List (List Char)
  | [] => []
  | v :: vs => write v :: writeItems vs

def writeFields : List (Text × Value) → List (List Char)
  | [] => []
  | f :: fs => writeField f :: writeFields fs

def writeField : Text × Value → List Char
  | (name, v) => writeText esc name ++ ':' :: write v

end

end

theorem intercalate_cons (w : List Char) (ws : List (List Char)) :
    [','].intercalate (w :: ws) = w ++ ws.flatMap (',' :: ·) := by
  induction ws generalizing w with
  | nil => simp
  | cons w' ws ih =>
    rw [List.intercalate_cons_cons, ih, List.flatMap_cons]
    simp

/-! ## Strings -/

/-- The code units of a code point. -/
def CodePoint.units : CodePoint → List Nat
  | .scalar c => Json.units c
  | .lone u => [u]

/-- A code point there is. -/
def CodePoint.Valid : CodePoint → Prop
  | .scalar _ => True
  | .lone u => isHigh u = true ∨ isLow u = true

/-- Each code point is read from what `esc` writes for it. -/
def Escapes (esc : CodePoint → List Char) : Prop :=
  ∀ (d : Dialect) (stack : List Frame) (isName : Bool) (us : List Nat) (p : CodePoint) (rest : List Char), p.Valid →
    run d ⟨stack, .string isName us .plain⟩ (esc p ++ rest) =
      run d ⟨stack, .string isName (us ++ p.units) .plain⟩ rest

/-- A string that the dialect reads as it stands. -/
structure Text.Writable (d : Dialect) (s : Text) : Prop where
  valid : ∀ p ∈ s, p.Valid
  /-- No two lone surrogates make a pair. -/
  units : codePoints (s.flatMap CodePoint.units) = s
  accepted : (d.loneSurrogates || wellFormed s) = true

theorem codePoints_units (c : Char) (us : List Nat) : codePoints (Json.units c ++ us) = .scalar c :: codePoints us := by
  have hvalid := Utf8.char_valid c
  unfold Json.units
  by_cases h : c.toNat < 0x10000
  · simp only [if_pos h]
    have hhigh : isHigh c.toNat = false := by
      simp only [isHigh, Bool.and_eq_false_iff, decide_eq_false_iff_not]
      omega
    have hlow : isLow c.toNat = false := by
      simp only [isLow, Bool.and_eq_false_iff, decide_eq_false_iff_not]
      omega
    have hsingle : single c.toNat = .scalar c := by
      simp only [single, hhigh, hlow, Bool.or_false, Bool.false_eq_true, if_false, Char.ofNat_toNat]
    cases us with
    | nil => simp only [List.append_nil, codePoints, hsingle]
    | cons u us => simp only [List.cons_append, List.nil_append, codePoints, hhigh, hsingle, Bool.false_and,
        Bool.false_eq_true, if_false]
  · simp only [if_neg h]
    have hhigh : isHigh (0xD800 + (c.toNat - 0x10000) / 0x400) = true := by
      simp only [isHigh, Bool.and_eq_true, decide_eq_true_eq]
      omega
    have hlow : isLow (0xDC00 + (c.toNat - 0x10000) % 0x400) = true := by
      simp only [isLow, Bool.and_eq_true, decide_eq_true_eq]
      omega
    have hvalue : 0x10000 + (0xD800 + (c.toNat - 0x10000) / 0x400 - 0xD800) * 0x400 +
        (0xDC00 + (c.toNat - 0x10000) % 0x400 - 0xDC00) = c.toNat := by omega
    simp only [List.cons_append, List.nil_append, codePoints, hhigh, hlow, Bool.and_self, if_true, hvalue,
      Char.ofNat_toNat]

/-- A string of characters is writable. -/
theorem writable_scalars (d : Dialect) (cs : List Char) : Text.Writable d (cs.map .scalar) where
  valid p hp := by
    obtain ⟨c, -, rfl⟩ := List.mem_map.mp hp
    trivial
  units := by
    induction cs with
    | nil => rfl
    | cons c cs ih =>
      rw [List.map_cons, List.flatMap_cons]
      exact (codePoints_units c _).trans (by rw [ih])
  accepted := by
    have hall : wellFormed (cs.map .scalar) = true := by simp [wellFormed]
    rw [hall, Bool.or_true]

/-- Where a string leads that is accepted. -/
def closedString (stack : List Frame) (isName : Bool) (s : Text) : Option State :=
  if isName then
    match stack with
    | .object fields _ :: stack => some ⟨.object fields s :: stack, .colon⟩
    | _ => none
  else some (finish (.string s) stack)

section

variable {esc : CodePoint → List Char} (hesc : Escapes esc) {d : Dialect}
include hesc

theorem run_flatMap_esc (stack : List Frame) (isName : Bool) (us : List Nat) {s : Text} (hs : ∀ p ∈ s, p.Valid)
    (rest : List Char) :
    run d ⟨stack, .string isName us .plain⟩ (s.flatMap esc ++ rest) =
      run d ⟨stack, .string isName (us ++ s.flatMap CodePoint.units) .plain⟩ rest := by
  induction s generalizing us with
  | nil => simp
  | cons p s ih =>
    rw [List.flatMap_cons, List.append_assoc, hesc d stack isName us p _ (hs p List.mem_cons_self),
      ih _ fun p hp => hs p (List.mem_cons_of_mem _ hp), List.flatMap_cons, List.append_assoc]

/-- The text of a string, to its closing quotation mark. -/
theorem run_writeText (stack : List Frame) (isName : Bool) {s : Text} (hs : Text.Writable d s) (rest : List Char) :
    run d ⟨stack, .string isName [] .plain⟩ (s.flatMap esc ++ '"' :: rest) =
      (closedString stack isName s).bind fun state => run d state rest := by
  rw [run_flatMap_esc hesc stack isName [] hs.valid, List.nil_append]
  show (step d ⟨stack, .string isName (s.flatMap CodePoint.units) .plain⟩ '"').bind (fun state => run d state rest) = _
  congr 1
  show d.closeString stack isName (s.flatMap CodePoint.units) = closedString stack isName s
  have closed : ∀ t, codePoints (s.flatMap CodePoint.units) = t → (d.loneSurrogates || wellFormed t) = true →
      d.closeString stack isName (s.flatMap CodePoint.units) = closedString stack isName t := by
    rintro t rfl ht
    exact if_pos ht
  exact closed s hs.units hs.accepted

end

theorem hexValue_digitChar {k : Nat} (hk : k < 16) : hexValue (Nat.digitChar k) = some k :=
  (by decide : ∀ i : Fin 16, hexValue (Nat.digitChar i) = some i) ⟨k, hk⟩

/-! ## Numbers -/

/-- Read on in a number. -/
def Number.reads (n : Number) (cs : List Char) : Option Number := cs.foldlM Number.next n

/-- How a number begins. -/
def Number.start (c : Char) : Option Number :=
  if c == '-' then some .minus else if c == '0' then some .zero else if c.isDigit then some .integer else none

/-- The text is a number. -/
def isNumber (digits : List Char) : Bool :=
  match digits with
  | [] => false
  | c :: cs => (((Number.start c).bind fun n => n.reads cs).map Number.complete).getD false

theorem run_reads {d : Dialect} {n n' : Number} {cs : List Char} (h : n.reads cs = some n') (stack : List Frame)
    (digits rest : List Char) :
    run d ⟨stack, .number n digits⟩ (cs ++ rest) = run d ⟨stack, .number n' (digits ++ cs)⟩ rest := by
  induction cs generalizing n digits with
  | nil =>
    cases h
    rw [List.nil_append, List.append_nil]
  | cons c cs ih =>
    obtain ⟨n₁, hn, hrest⟩ := Option.bind_eq_some_iff.mp h
    have hstep : step d ⟨stack, .number n digits⟩ c = some ⟨stack, .number n₁ (digits ++ [c])⟩ := by
      simp only [step, stepNumber, show n.next c = some n₁ from hn]
    rw [List.cons_append, run, hstep, Option.bind_some, ih hrest, List.append_assoc, List.singleton_append]

/-- What is read at the end. -/
def read (d : Dialect) (s : State) (cs : List Char) : Option Value := (run d s cs).bind (result d)

theorem read_cons (d : Dialect) (s : State) (c : Char) (cs : List Char) :
    read d s (c :: cs) = (step d s c).bind fun s => read d s cs := by
  unfold read
  rw [run, Option.bind_assoc]

/-- What comes after a value. -/
def Terminated (rest : List Char) : Prop := ∀ c ∈ rest.head?, c = ',' ∨ c = ']' ∨ c = '}'

theorem next_eq_none (n : Number) {c : Char} (hc : c = ',' ∨ c = ']' ∨ c = '}') : n.next c = none := by
  obtain rfl | rfl | rfl := hc <;> cases n <;> rfl

theorem step_finish (d : Dialect) (v : Value) (stack : List Frame) (c : Char) :
    step d (finish v stack) c = stepNext (finish v stack) c := by
  cases stack with
  | nil => rfl
  | cons f stack => cases f <;> rfl

/-- A number ends where something else begins. -/
theorem read_number {d : Dialect} {n : Number} {digits rest : List Char} (hn : n.complete = true)
    (hrange : d.inRange digits = true) (stack : List Frame) (hrest : Terminated rest) :
    read d ⟨stack, .number n digits⟩ rest = read d (finish (.number digits) stack) rest := by
  cases rest with
  | nil =>
    cases stack with
    | nil => simp [read, run, result, finish, hn, hrange]
    | cons f stack => cases f <;> rfl
  | cons c rest =>
    rw [read_cons, read_cons, step_finish]
    have hstep : step d ⟨stack, .number n digits⟩ c = stepNext (finish (.number digits) stack) c := by
      simp only [step, stepNumber, next_eq_none n (hrest c rfl), hn, hrange, Bool.and_self, if_true]
    rw [hstep]

theorem stepValue_start {d : Dialect} {c : Char} {n : Number} (h : Number.start c = some n) (stack : List Frame)
    (mode : Mode) : d.stepValue stack mode c = some ⟨stack, .number n [c]⟩ := by
  unfold Number.start at h
  by_cases hminus : (c == '-') = true
  · rw [if_pos hminus] at h
    cases h
    rw [eq_of_beq hminus]
    rfl
  · rw [if_neg hminus] at h
    by_cases hzero : (c == '0') = true
    · rw [if_pos hzero] at h
      cases h
      rw [eq_of_beq hzero]
      rfl
    · rw [if_neg hzero] at h
      split at h
      · rename_i hdigit
        cases h
        have hne : ∀ c' : Char, c'.isDigit = false → (c == c') = false := by
          intro c' hc'
          refine beq_false_of_ne fun he => ?_
          rw [he, hc'] at hdigit
          cases hdigit
        unfold Dialect.stepValue isSpace
        simp only [hne ' ' rfl, hne '\t' rfl, hne '\n' rfl, hne '\r' rfl, hne '{' rfl, hne '[' rfl, hne '"' rfl,
          hdigit, Bool.or_self, Bool.false_eq_true, if_false, if_true]
        rw [if_neg hminus, if_neg hzero]
      · cases h

theorem reads_digits {cs : List Char} (h : ∀ c ∈ cs, c.isDigit = true) : Number.integer.reads cs = some .integer := by
  induction cs with
  | nil => rfl
  | cons c cs ih =>
    have hc : Number.integer.next c = some .integer := if_pos (h c List.mem_cons_self)
    show (Number.integer.next c).bind (fun n => n.reads cs) = _
    rw [hc]
    exact ih fun c' hc' => h c' (List.mem_cons_of_mem c hc')

/-- The digits of a natural number are a number. -/
theorem isNumber_toDigits (n : Nat) : isNumber (Nat.toDigits 10 n) = true := by
  have hdigits : ∀ c ∈ Nat.toDigits 10 n, c.isDigit = true := fun c hc =>
    Nat.isDigit_of_mem_toDigits (by decide) (by decide) hc
  cases htext : Nat.toDigits 10 n with
  | nil => exact absurd htext Nat.toDigits_ne_nil
  | cons c cs =>
    rw [htext] at hdigits
    obtain ⟨hc, hcs⟩ := List.forall_mem_cons.mp hdigits
    by_cases hzero : c = '0'
    · -- a number with a zero in front would have fewer digits
      have hnil : cs = [] := by
        by_contra hne
        have hpos : 0 < cs.length := List.length_pos_iff.mpr hne
        have hvalue : n = Nat.ofDigitChars 10 cs 0 := by
          have hn := Nat.ofDigitChars_ten_toDigits (n := n)
          rw [htext, hzero, Nat.ofDigitChars_cons] at hn
          exact hn.symm
        have hlt : n < 10 ^ cs.length := by
          rw [hvalue]
          exact Decimal.ofDigitChars_lt hcs
        have hle := (Nat.length_toDigits_le_iff (by decide) hpos).mpr hlt
        rw [htext, List.length_cons] at hle
        omega
      subst hnil hzero
      rfl
    · have hstart : Number.start c = some .integer := by
        have hminus : (c == '-') = false := by
          refine beq_false_of_ne fun he => ?_
          rw [he] at hc
          cases hc
        simp only [Number.start, hminus, beq_false_of_ne hzero, hc, Bool.false_eq_true, if_false, if_true]
      simp [isNumber, hstart, reads_digits hcs, Number.complete]

/-! ## Values -/

mutual

/-- The dialect reads the value as it is written, within `depth` values that are open. -/
def Value.Writable (d : Dialect) (depth : Nat) : Value → Prop
  | .null => True
  | .bool _ => True
  | .number digits => isNumber digits = true ∧ d.inRange digits = true
  | .string s => Text.Writable d s
  | .array items => (d.maxDepth.all fun n => decide (depth < n)) = true ∧ ItemsWritable d (depth + 1) items
  | .object fields => (d.maxDepth.all fun n => decide (depth < n)) = true ∧ (fields.map Prod.fst).Nodup ∧
      FieldsWritable d (depth + 1) fields

def ItemsWritable (d : Dialect) (depth : Nat) : List Value → Prop
  | [] => True
  | v :: vs => v.Writable d depth ∧ ItemsWritable d depth vs

def FieldsWritable (d : Dialect) (depth : Nat) : List (Text × Value) → Prop
  | [] => True
  | f :: fs => FieldWritable d depth f ∧ FieldsWritable d depth fs

def FieldWritable (d : Dialect) (depth : Nat) : Text × Value → Prop
  | (name, v) => Text.Writable d name ∧ v.Writable d depth

end

theorem setField_new {fields : List (Text × Value)} {name : Text} (h : name ∉ fields.map Prod.fst) (v : Value) :
    setField fields name v = fields ++ [(name, v)] := by
  unfold setField
  rw [if_neg]
  intro hany
  obtain ⟨f, hf, hname⟩ := List.any_eq_true.mp hany
  exact h (List.mem_map.mpr ⟨f, hf, of_decide_eq_true hname⟩)

/-- The field that is found after a write. -/
theorem find?_setField (fields : List (Text × Value)) (name : Text) (v : Value) (m : Text) :
    ((setField fields name v).find? fun f => f.1 = m).map Prod.snd =
      if name = m then some v else (fields.find? fun f => f.1 = m).map Prod.snd := by
  unfold setField
  by_cases hany : (fields.any fun f => f.1 = name) = true
  · rw [if_pos hany]
    by_cases hm : name = m
    · subst hm
      rw [if_pos rfl]
      induction fields with
      | nil => cases hany
      | cons f fields ih =>
        by_cases hf : f.1 = name
        · simp [hf]
        · have hrest : (fields.any fun f => f.1 = name) = true := by simpa [hf] using hany
          simpa [hf] using ih hrest
    · rw [if_neg hm]
      clear hany
      induction fields with
      | nil => rfl
      | cons f fields ih =>
        by_cases hf : f.1 = name
        · have hfm : f.1 ≠ m := hf ▸ hm
          simpa [hf, hm, hfm] using ih
        · rw [List.map_cons, if_neg hf]
          by_cases hfm : f.1 = m
          · simp [hfm]
          · simpa [hfm] using ih
  · rw [if_neg hany]
    have hnone : ∀ f ∈ fields, f.1 ≠ name := fun f hf he => hany (List.any_eq_true.mpr ⟨f, hf, decide_eq_true he⟩)
    rw [List.find?_append]
    by_cases hm : name = m
    · subst hm
      have hfind : fields.find? (fun f => f.1 = name) = none :=
        List.find?_eq_none.mpr fun f hf => by simpa using hnone f hf
      simp [hfind]
    · cases hfind : fields.find? (fun f => f.1 = m) with
      | none => simp [hm]
      | some f => simp [hm]

theorem fieldsWritable_iff {d : Dialect} {depth : Nat} {fs : List (Text × Value)} :
    FieldsWritable d depth fs ↔ ∀ f ∈ fs, Text.Writable d f.1 ∧ f.2.Writable d depth := by
  induction fs with
  | nil => simp [FieldsWritable]
  | cons f fs ih =>
    obtain ⟨name, v⟩ := f
    rw [List.forall_mem_cons, ← ih]
    rfl

/-- An object can still be written after a write to it. -/
theorem writable_setField {d : Dialect} {depth : Nat} {fields : List (Text × Value)} {name : Text} {v : Value}
    (h : (Value.object fields).Writable d depth) (hname : Text.Writable d name) (hv : v.Writable d (depth + 1)) :
    (Value.object (setField fields name v)).Writable d depth := by
  obtain ⟨hdepth, hnodup, hfields⟩ := h
  rw [fieldsWritable_iff] at hfields
  refine ⟨hdepth, ?_, fieldsWritable_iff.mpr fun f hf => ?_⟩
  · unfold setField
    split
    · have hnames : (fields.map fun f => if f.1 = name then (name, v) else f).map Prod.fst = fields.map Prod.fst := by
        rw [List.map_map]
        refine List.map_congr_left fun f _ => ?_
        by_cases hf : f.1 = name
        · simp [hf]
        · simp [hf]
      rw [hnames]
      exact hnodup
    · rename_i hany
      rw [List.map_append, List.map_singleton]
      refine List.nodup_append.mpr ⟨hnodup, by simp, fun a ha b hb hab => hany ?_⟩
      rw [List.mem_singleton] at hb
      obtain ⟨f, hf, rfl⟩ := List.mem_map.mp ha
      exact List.any_eq_true.mpr ⟨f, hf, decide_eq_true (hab.trans hb)⟩
  · unfold setField at hf
    split at hf
    · obtain ⟨g, hg, rfl⟩ := List.mem_map.mp hf
      split
      · exact ⟨hname, hv⟩
      · exact hfields g hg
    · obtain hf | hf := List.mem_append.mp hf
      · exact hfields f hf
      · rw [List.mem_singleton.mp hf]
        exact ⟨hname, hv⟩

/-- Where a value stands: an array that begins may also end here. -/
inductive Opens (stack : List Frame) : Mode → Prop
  | value : Opens stack .value
  | firstItem {items : List Value} {rest : List Frame} (h : stack = .array items :: rest) : Opens stack .firstItem

section

variable {esc : CodePoint → List Char} {d : Dialect}

/-- The first character of a value is read alike in either place. -/
theorem step_opens {stack : List Frame} {mode : Mode} (h : Opens stack mode) {c : Char} (hc : c ≠ ']') :
    step d ⟨stack, mode⟩ c = d.stepValue stack mode c := by
  cases h with
  | value => rfl
  | firstItem h =>
    subst h
    simp only [step, beq_false_of_ne hc, Bool.false_eq_true, if_false]

theorem terminated_flatMap (ws : List (List Char)) {c : Char} (hc : c = ']' ∨ c = '}') (rest : List Char) :
    Terminated (ws.flatMap (',' :: ·) ++ c :: rest) := by
  cases ws with
  | nil =>
    rintro c' hc'
    cases hc'
    exact .inr hc
  | cons w ws =>
    rintro c' hc'
    cases hc'
    exact .inl rfl

theorem push_eq {depth : Nat} {stack : List Frame} (hd : stack.length = depth)
    (h : (d.maxDepth.all fun n => decide (depth < n)) = true) (f : Frame) (m : Mode) :
    d.push stack f m = some ⟨f :: stack, m⟩ := by
  subst hd
  exact if_pos h

theorem writeField_eq (esc : CodePoint → List Char) (f : Text × Value) :
    writeField esc f = '"' :: (f.1.flatMap esc ++ '"' :: ':' :: write esc f.2) := by
  obtain ⟨name, v⟩ := f
  rw [writeField, writeText, List.cons_append, List.append_assoc, List.singleton_append]

mutual

/-- **A value is read from its text**, wherever it stands. -/
theorem read_write (hesc : Escapes esc) : ∀ (v : Value) (stack : List Frame) (mode : Mode) (rest : List Char),
    v.Writable d stack.length → Opens stack mode → Terminated rest →
    read d ⟨stack, mode⟩ (write esc v ++ rest) = read d (finish v stack) rest
  | .null, stack, mode, rest, _, hmode, _ => by
    show read d ⟨stack, mode⟩ ('n' :: 'u' :: 'l' :: 'l' :: rest) = _
    rw [read_cons, step_opens hmode (by decide)]
    rfl
  | .bool true, stack, mode, rest, _, hmode, _ => by
    show read d ⟨stack, mode⟩ ('t' :: 'r' :: 'u' :: 'e' :: rest) = _
    rw [read_cons, step_opens hmode (by decide)]
    rfl
  | .bool false, stack, mode, rest, _, hmode, _ => by
    show read d ⟨stack, mode⟩ ('f' :: 'a' :: 'l' :: 's' :: 'e' :: rest) = _
    rw [read_cons, step_opens hmode (by decide)]
    rfl
  | .number [], _, _, _, hv, _, _ => by cases hv.1
  | .number (c :: cs), stack, mode, rest, hv, hmode, hrest => by
    obtain ⟨hnumber, hrange⟩ := hv
    unfold isNumber at hnumber
    cases hstart : Number.start c with
    | none => simp [hstart] at hnumber
    | some n =>
      cases hreads : n.reads cs with
      | none => simp [hstart, hreads] at hnumber
      | some n' =>
        have hcomplete : n'.complete = true := by simpa [hstart, hreads] using hnumber
        have hne : c ≠ ']' := by
          rintro rfl
          cases hstart
        show read d ⟨stack, mode⟩ (c :: (cs ++ rest)) = _
        rw [read_cons, step_opens hmode hne, stepValue_start hstart, Option.bind_some]
        unfold read
        rw [run_reads hreads, List.singleton_append]
        exact read_number hcomplete hrange stack hrest
  | .string s, stack, mode, rest, hv, hmode, _ => by
    show read d ⟨stack, mode⟩ ('"' :: (s.flatMap esc ++ ['"'] ++ rest)) = _
    rw [read_cons, step_opens hmode (by decide)]
    show (run d ⟨stack, .string false [] .plain⟩ _).bind (result d) = _
    rw [List.append_assoc, List.singleton_append, run_writeText hesc stack false hv]
    rfl
  | .array items, stack, mode, rest, hv, hmode, _ => by
    show read d ⟨stack, mode⟩ ('[' :: ([','].intercalate (writeItems esc items) ++ [']'] ++ rest)) = _
    rw [read_cons, step_opens hmode (by decide)]
    show (d.push stack (.array []) .firstItem).bind _ = _
    rw [push_eq rfl hv.1, Option.bind_some, List.append_assoc, List.singleton_append]
    cases items with
    | nil => rw [writeItems, List.intercalate_nil, List.nil_append, read_cons]; rfl
    | cons v vs =>
      rw [writeItems, intercalate_cons, List.append_assoc, read_write hesc v (.array [] :: stack) .firstItem _ hv.2.1
        (.firstItem rfl) (terminated_flatMap _ (.inl rfl) rest)]
      exact read_items hesc vs [v] stack rest hv.2.2
  | .object fields, stack, mode, rest, hv, hmode, _ => by
    show read d ⟨stack, mode⟩ ('{' :: ([','].intercalate (writeFields esc fields) ++ ['}'] ++ rest)) = _
    rw [read_cons, step_opens hmode (by decide)]
    show (d.push stack (.object [] []) .firstName).bind _ = _
    rw [push_eq rfl hv.1, Option.bind_some, List.append_assoc, List.singleton_append]
    cases fields with
    | nil => rw [writeFields, List.intercalate_nil, List.nil_append, read_cons]; rfl
    | cons f fs =>
      rw [writeFields, intercalate_cons, List.append_assoc, writeField_eq, List.cons_append, read_cons]
      show read d ⟨.object [] [] :: stack, .string true [] .plain⟩ _ = _
      rw [read_field hesc f [] [] stack _ hv.2.2.1 List.not_mem_nil (terminated_flatMap _ (.inr rfl) rest)]
      exact read_fields hesc fs [f] f.1 stack rest hv.2.2.2 hv.2.1

theorem read_items (hesc : Escapes esc) : ∀ (vs items : List Value) (stack : List Frame) (rest : List Char),
    ItemsWritable d (stack.length + 1) vs →
    read d ⟨.array items :: stack, .next⟩ ((writeItems esc vs).flatMap (',' :: ·) ++ ']' :: rest) =
      read d (finish (.array (items ++ vs)) stack) rest
  | [], items, stack, rest, _ => by
    rw [writeItems, List.flatMap_nil, List.nil_append, read_cons, List.append_nil]
    rfl
  | v :: vs, items, stack, rest, hv => by
    rw [writeItems, List.flatMap_cons, List.cons_append, List.cons_append, List.append_assoc, read_cons]
    show read d ⟨.array items :: stack, .value⟩ _ = _
    rw [read_write hesc v (.array items :: stack) .value _ hv.1 .value (terminated_flatMap _ (.inl rfl) rest)]
    show read d ⟨.array (items ++ [v]) :: stack, .next⟩ _ = _
    rw [read_items hesc vs (items ++ [v]) stack rest hv.2, List.append_assoc, List.singleton_append]

theorem read_field (hesc : Escapes esc) : ∀ (f : Text × Value) (fields : List (Text × Value)) (last : Text)
    (stack : List Frame) (rest : List Char), FieldWritable d (stack.length + 1) f → f.1 ∉ fields.map Prod.fst →
    Terminated rest →
    read d ⟨.object fields last :: stack, .string true [] .plain⟩
        ((f.1.flatMap esc ++ '"' :: ':' :: write esc f.2) ++ rest) =
      read d ⟨.object (fields ++ [f]) f.1 :: stack, .next⟩ rest
  | (name, v), fields, last, stack, rest, hf, hnew, hrest => by
    rw [List.append_assoc, List.cons_append, List.cons_append]
    show (run d _ _).bind (result d) = _
    rw [run_writeText hesc _ true hf.1]
    show read d ⟨.object fields name :: stack, .colon⟩ (':' :: (write esc v ++ rest)) = _
    rw [read_cons]
    show read d ⟨.object fields name :: stack, .value⟩ (write esc v ++ rest) = _
    rw [read_write hesc v (.object fields name :: stack) .value rest hf.2 .value hrest]
    show read d ⟨.object (setField fields name v) name :: stack, .next⟩ rest = _
    rw [setField_new hnew]

theorem read_fields (hesc : Escapes esc) : ∀ (fs fields : List (Text × Value)) (last : Text) (stack : List Frame)
    (rest : List Char), FieldsWritable d (stack.length + 1) fs → ((fields ++ fs).map Prod.fst).Nodup →
    read d ⟨.object fields last :: stack, .next⟩ ((writeFields esc fs).flatMap (',' :: ·) ++ '}' :: rest) =
      read d (finish (.object (fields ++ fs)) stack) rest
  | [], fields, last, stack, rest, _, _ => by
    rw [writeFields, List.flatMap_nil, List.nil_append, read_cons, List.append_nil]
    rfl
  | f :: fs, fields, last, stack, rest, hfs, hnodup => by
    have hnew : f.1 ∉ fields.map Prod.fst := by
      rw [List.map_append, List.map_cons] at hnodup
      exact fun hmem => (List.nodup_append.mp hnodup).2.2 _ hmem _ List.mem_cons_self rfl
    rw [writeFields, List.flatMap_cons, List.cons_append, List.cons_append, List.append_assoc, read_cons]
    show read d ⟨.object fields last :: stack, .name⟩ _ = _
    rw [writeField_eq, List.cons_append, read_cons]
    show read d ⟨.object fields last :: stack, .string true [] .plain⟩ _ = _
    rw [read_field hesc f fields last stack _ hfs.1 hnew (terminated_flatMap _ (.inr rfl) rest),
      read_fields hesc fs (fields ++ [f]) f.1 stack rest hfs.2 (by rwa [List.append_assoc, List.singleton_append]),
      List.append_assoc, List.singleton_append]

end

end

/-- **A value is what its text is read as.** -/
theorem parse_write {esc : CodePoint → List Char} (hesc : Escapes esc) {d : Dialect} {v : Value}
    (hv : v.Writable d 0) : parse d (write esc v) = some v := by
  have hread := read_write hesc v [] .value [] hv .value (fun c hc => by cases hc)
  rw [List.append_nil] at hread
  exact hread.trans rfl

end Json
