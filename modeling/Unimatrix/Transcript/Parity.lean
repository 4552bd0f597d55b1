import Unimatrix.Transcript.Budget

/-!
# What the two extractors have in common

A line is `Alike` when Rust reads it as JavaScript does, or nothing in it counts (`Inert`). Then both derive the same
turns (`turns_eq`); the lines that the front ends see are those of `lines_of_boundary` and `lines_of_cut`. Hence
**`block_parity`**: the server's front end returns the same block as the port, and that of the hook does unless the
window begins within a character, where it reads nothing.

What one line loses no other makes up for: the turns are the same iff each line gives the same (`turns_eq_iff`), and
so are the blocks where all turns fit (**`blockFromLines_eq_iff`**, for lines with the same parameters).
-/

namespace Unimatrix.TranscriptBlock

open Utf8 Json

/-! ## Reading a line -/

theorem startsValue_range {c : Char} (h : startsValue c) : 33 ≤ c.toNat ∧ c.toNat ≤ 125 := by
  unfold startsValue at h
  simp only [Bool.or_eq_true, beq_iff_eq] at h
  rcases h with ((((((rfl | rfl) | rfl) | rfl) | hd) | rfl) | rfl) | rfl
  case inl.inl.inl.inr =>
    simp only [Char.isDigit, Bool.and_eq_true, decide_eq_true_eq, UInt32.le_iff_toNat_le] at hd
    have h0 : '0'.val.toNat = 48 := rfl
    have h9 : '9'.val.toNat = 57 := rfl
    have hc : c.val.toNat = c.toNat := rfl
    omega
  all_goals decide

theorem not_startsValue_of_common {c : Char} (h : TopicSignal.isCommonWhitespace c) : startsValue c = false := by
  refine Bool.eq_false_iff.mpr fun hs => ?_
  have hrange := startsValue_range hs
  unfold TopicSignal.isCommonWhitespace at h
  simp only [Bool.or_eq_true, Bool.and_eq_true, decide_eq_true_eq, beq_iff_eq] at h
  omega

/-- Each language adds one character to the common ones, beyond ASCII. -/
theorem not_startsValue_of_or {c : Char} {extra : Nat} (hextra : 125 < extra)
    (h : TopicSignal.isCommonWhitespace c || c.toNat == extra) : startsValue c = false := by
  rcases Bool.or_eq_true_iff.mp h with h | h
  · exact not_startsValue_of_common h
  · refine Bool.eq_false_iff.mpr fun hs => ?_
    have hrange := startsValue_range hs
    have hc := beq_iff_eq.mp h
    omega

theorem not_startsValue_of_js {c : Char} (h : TopicSignal.isJsWhitespace c) : startsValue c = false :=
  @not_startsValue_of_or c 0xFEFF (by decide) h

theorem not_startsValue_of_rust {c : Char} (h : TopicSignal.isRustWhitespace c) : startsValue c = false :=
  @not_startsValue_of_or c 0x85 (by decide) h

/-- A blank line cannot be parsed anyway. -/
theorem readLine_eq_parse {L : Language} (h : ∀ c, L.isWhitespace c → startsValue c = false) (line : List Char) :
    L.readLine line = parse L.dialect line := by
  unfold Language.readLine
  split
  · rename_i hblank
    exact (parse_eq_none L.dialect fun c hc => h c (List.all_eq_true.mp hblank c hc)).symm
  · rfl

theorem readLine_js (line : List Char) : js.readLine line = parse js.dialect line :=
  readLine_eq_parse (fun _ => not_startsValue_of_js) line

section Parity

variable {inRange : List Char → Bool}

theorem readLine_rust (line : List Char) : (rust inRange).readLine line = parse (rust inRange).dialect line :=
  readLine_eq_parse (fun _ => not_startsValue_of_rust) line

theorem js_extends : js.dialect.Extends (rust inRange).dialect where
  depth _ _ := rfl
  lone _ := rfl
  range _ _ := rfl

/-- What Rust reads, JavaScript reads. -/
theorem readLine_of_rust {line : List Char} {record : Value} (h : (rust inRange).readLine line = some record) :
    js.readLine line = some record := by
  rw [readLine_rust] at h
  rw [readLine_js]
  exact js_extends.parse h

/-! ## Lines that are read alike -/

/-- The input of a tool call. -/
def inputOf (block : Value) : Value := (block.get "input").getD .null

/-- The first string of an object is the same in both orders. -/
def SameFirst (input : Value) : Prop :=
  ∀ fields ∈ input.asObject, firstString (objectKeys fields) = firstString fields

/-- Each tool call of a record has its named field, or the same first string in both orders. -/
def SameParams (record : Value) : Prop :=
  ∀ block ∈ getContentArray record, hasType block "tool_use" → (getString block "id").isSome →
    ∀ name ∈ getString block "name", (namedParam name (inputOf block)).isSome ∨ SameFirst (inputOf block)

/-- Nothing in a record counts: it is no user record with texts or results, and no assistant record with texts or
tool calls. -/
def Inert (record : Value) : Prop :=
  (hasType record "user" →
    textBlocks (getContentArray record) = [] ∧ (getContentArray record).filterMap toolResult = []) ∧
  (hasType record "assistant" →
    textBlocks (getContentArray record) = [] ∧ (getContentArray record).filterMap js.toolUse = [])

variable (inRange) in
/-- If JavaScript can parse the line, Rust can and both find the same parameters, or nothing in it counts. -/
def Alike (line : List Char) : Prop :=
  ∀ record ∈ parse js.dialect line,
    ((parse (rust inRange).dialect line).isSome ∧ (hasType record "assistant" → SameParams record)) ∨ Inert record

instance (input : Value) : Decidable (SameFirst input) :=
  inferInstanceAs (Decidable (∀ fields ∈ input.asObject, firstString (objectKeys fields) = firstString fields))

instance (record : Value) : Decidable (SameParams record) :=
  inferInstanceAs (Decidable (∀ block ∈ getContentArray record, hasType block "tool_use" →
    (getString block "id").isSome → ∀ name ∈ getString block "name",
      (namedParam name (inputOf block)).isSome ∨ SameFirst (inputOf block)))

instance (record : Value) : Decidable (Inert record) :=
  inferInstanceAs (Decidable ((hasType record "user" →
    textBlocks (getContentArray record) = [] ∧ (getContentArray record).filterMap toolResult = []) ∧
  (hasType record "assistant" →
    textBlocks (getContentArray record) = [] ∧ (getContentArray record).filterMap js.toolUse = [])))

instance (line : List Char) : Decidable (Alike inRange line) :=
  inferInstanceAs (Decidable (∀ record ∈ parse js.dialect line,
    ((parse (rust inRange).dialect line).isSome ∧ (hasType record "assistant" → SameParams record)) ∨ Inert record))

/-- What becomes of a line: both read it, alike; or JavaScript reads it and nothing in it counts. -/
theorem Alike.read {line : List Char} (h : Alike inRange line) :
    ((rust inRange).readLine line = js.readLine line ∧
      ∀ record ∈ js.readLine line, hasType record "assistant" → SameParams record) ∨
    ∃ record, js.readLine line = some record ∧ Inert record ∧
      ((rust inRange).readLine line = none ∨ (rust inRange).readLine line = some record) := by
  cases hjs : js.readLine line with
  | none =>
    refine .inl ⟨?_, fun record hrecord => by cases hrecord⟩
    cases hrust : (rust inRange).readLine line with
    | none => rfl
    | some record => exact absurd ((readLine_of_rust hrust).symm.trans hjs) (Option.some_ne_none record)
  | some record =>
    rcases h record (by rw [← readLine_js]; exact hjs) with ⟨hsome, hsame⟩ | hinert
    · obtain ⟨v, hv⟩ := Option.isSome_iff_exists.mp hsome
      rw [← readLine_rust] at hv
      have heq := (readLine_of_rust hv).symm.trans hjs
      refine .inl ⟨hv.trans heq, fun r hr => ?_⟩
      obtain rfl := Option.some.inj hr
      exact hsame
    · refine .inr ⟨record, rfl, hinert, ?_⟩
      cases hrust : (rust inRange).readLine line with
      | none => exact .inl rfl
      | some v => exact .inr ((readLine_of_rust hrust).symm.trans hjs)

/-! ## The same turns -/

theorem toolUse_isSome (L L' : Language) (block : Value) : (L.toolUse block).isSome = (L'.toolUse block).isSome := by
  unfold Language.toolUse
  split
  · cases getString block "id" with
    | none => rfl
    | some id => simp only [Option.bind_some, Option.isSome_map]
  · rfl

theorem filterMap_toolUse_eq_nil (L L' : Language) {content : List Value} (h : content.filterMap L.toolUse = []) :
    content.filterMap L'.toolUse = [] := by
  rw [List.filterMap_eq_nil_iff] at h ⊢
  intro block hblock
  rw [← Option.not_isSome_iff_eq_none, toolUse_isSome L' L, h block hblock]
  exact Bool.false_ne_true

theorem SameParams.toolUse {record : Value} (h : SameParams record) {block : Value}
    (hblock : block ∈ getContentArray record) : (rust inRange).toolUse block = js.toolUse block := by
  unfold Language.toolUse
  split
  · rename_i htype
    cases hid : getString block "id" with
    | none => rfl
    | some id =>
      simp only [Option.bind_some]
      cases hname : getString block "name" with
      | none => rfl
      | some name =>
        have hparam : (rust inRange).extractKeyParam name (inputOf block) =
            js.extractKeyParam name (inputOf block) := by
          unfold Language.extractKeyParam
          rcases h block hblock htype (by rw [hid]; rfl) name hname with hnamed | hfirst
          · obtain ⟨s, hs⟩ := Option.isSome_iff_exists.mp hnamed
            rw [hs]
          · cases hfields : (inputOf block).asObject with
            | none => rfl
            | some fields =>
              have hentries : firstString ((rust inRange).entries fields) = firstString (js.entries fields) :=
                (hfirst fields hfields).symm
              simp only [Option.bind_some, hentries]
        unfold inputOf at hparam
        rw [Option.map_some, Option.map_some, hparam]
  · rfl

theorem Inert.lineTurns {L : Language} {line : List Char} {record : Value} (h : Inert record)
    (hread : L.readLine line = some record) (next : Option (List Char)) : L.lineTurns line next = [] := by
  unfold Language.lineTurns
  rw [hread]
  simp only
  split
  · rename_i huser
    unfold userTurns
    simp only [(h.1 huser).1, if_true]
  · split
    · rename_i hassistant
      unfold Language.assistantTurns
      simp only [(h.2 hassistant).1, filterMap_toolUse_eq_nil js L (h.2 hassistant).2, if_true, List.map_nil,
        List.append_nil]
    · rfl

theorem Inert.resultMap {L : Language} {line : List Char} {record : Value} (h : Inert record)
    (hread : L.readLine line = some record) : L.resultMap (some line) = ∅ := by
  unfold Language.resultMap
  rw [Option.bind_some, hread]
  simp only
  split
  · rename_i huser
    rw [(h.1 huser).2]
    rfl
  · rfl

theorem resultMap_eq {next : Option (List Char)} (h : ∀ line ∈ next, Alike inRange line) :
    (rust inRange).resultMap next = js.resultMap next := by
  cases next with
  | none => rfl
  | some line =>
    rcases (h line rfl).read with ⟨hread, -⟩ | ⟨record, hjs, hinert, hrust | hrust⟩
    · unfold Language.resultMap
      simp only [Option.bind_some, hread]
    · rw [hinert.resultMap hjs]
      unfold Language.resultMap
      rw [Option.bind_some, hrust]
    · rw [hinert.resultMap hjs, hinert.resultMap hrust]

/-- **A line gives the same turns.** -/
theorem lineTurns_eq {line : List Char} {next : Option (List Char)} (h : Alike inRange line)
    (hnext : ∀ line ∈ next, Alike inRange line) : (rust inRange).lineTurns line next = js.lineTurns line next := by
  rcases h.read with ⟨hread, hsame⟩ | ⟨record, hjs, hinert, hrust | hrust⟩
  · unfold Language.lineTurns
    rw [hread]
    cases hjs : js.readLine line with
    | none => rfl
    | some record =>
      simp only
      split
      · rfl
      · split
        · rename_i hassistant
          have huses : (getContentArray record).filterMap (rust inRange).toolUse =
              (getContentArray record).filterMap js.toolUse :=
            List.filterMap_congr fun block hblock => (hsame record hjs hassistant).toolUse hblock
          unfold Language.assistantTurns
          simp only [huses, resultMap_eq hnext]
        · rfl
  · rw [hinert.lineTurns hjs]
    unfold Language.lineTurns
    rw [hrust]
  · rw [hinert.lineTurns hjs, hinert.lineTurns hrust]

theorem turns_eq {lines : List (List Char)} (h : ∀ line ∈ lines, Alike inRange line) :
    (rust inRange).turns lines = js.turns lines := by
  induction lines with
  | nil => rfl
  | cons line rest ih =>
    have hnext : ∀ next ∈ rest.head?, Alike inRange next := fun next hnext =>
      h next (List.mem_cons_of_mem _ (List.mem_of_mem_head? hnext))
    unfold Language.turns
    rw [lineTurns_eq (h line List.mem_cons_self) hnext, ih fun l hl => h l (List.mem_cons_of_mem _ hl)]

/-- Lines that are read alike give the same block. -/
theorem blockFromLines_eq {lines : List (List Char)} (h : ∀ line ∈ lines, Alike inRange line) :
    (rust inRange).blockFromLines lines = js.blockFromLines lines := by
  unfold Language.blockFromLines Language.buildExchangePairs
  rw [turns_eq h]

/-! ## Lines that are not -/

variable (inRange)

/-- Rust gives as many turns for a line as JavaScript, or none. -/
theorem length_lineTurns (line : List Char) (next : Option (List Char)) :
    (rust inRange).lineTurns line next = [] ∨
      ((rust inRange).lineTurns line next).length = (js.lineTurns line next).length := by
  unfold Language.lineTurns
  cases hrust : (rust inRange).readLine line with
  | none => exact .inl rfl
  | some record =>
    rw [readLine_of_rust hrust]
    simp only
    split
    · exact .inr rfl
    · split
      · refine .inr ?_
        unfold Language.assistantTurns
        simp only [List.length_append, List.length_map, List.length_filterMap_eq_countP,
          toolUse_isSome (rust inRange) js]
      · exact .inl rfl

theorem length_lineTurns_le (line : List Char) (next : Option (List Char)) :
    ((rust inRange).lineTurns line next).length ≤ (js.lineTurns line next).length := by
  rcases length_lineTurns inRange line next with h | h
  · rw [h]
    exact Nat.zero_le _
  · exact Nat.le_of_eq h

theorem length_turns_le (lines : List (List Char)) :
    ((rust inRange).turns lines).length ≤ (js.turns lines).length := by
  induction lines with
  | nil => exact Nat.le_refl 0
  | cons line rest ih =>
    unfold Language.turns
    rw [List.length_append, List.length_append]
    exact Nat.add_le_add (length_lineTurns_le inRange line rest.head?) ih

/-- Every line gives the same turns. -/
def SameTurns : List (List Char) → Prop
  | [] => True
  | line :: rest => (rust inRange).lineTurns line rest.head? = js.lineTurns line rest.head? ∧ SameTurns rest

/-- **The turns are the same iff each line gives the same**: what a line loses is not made up for by another. -/
theorem turns_eq_iff (lines : List (List Char)) :
    (rust inRange).turns lines = js.turns lines ↔ SameTurns inRange lines := by
  induction lines with
  | nil => exact ⟨fun _ => trivial, fun _ => rfl⟩
  | cons line rest ih =>
    unfold Language.turns SameTurns
    refine ⟨fun h => ?_, fun h => by rw [h.1, ih.mpr h.2]⟩
    have hlen := congrArg List.length h
    rw [List.length_append, List.length_append] at hlen
    have hle := length_lineTurns_le inRange line rest.head?
    have hle' := length_turns_le inRange rest
    obtain ⟨hline, hrest⟩ := List.append_inj h (by omega)
    exact ⟨hline, ih.mp hrest⟩

/-! ## Blocks that have room for all -/

/-- The length of some turns in print, each on lines of its own. -/
def printedLength : List Turn → Nat
  | [] => 0
  | turn :: turns => (formatTurn turn).length + 1 + printedLength turns

theorem printedLength_append (xs ys : List Turn) :
    printedLength (xs ++ ys) = printedLength xs + printedLength ys := by
  induction xs with
  | nil => exact (Nat.zero_add _).symm
  | cons x xs ih =>
    rw [List.cons_append, printedLength, printedLength, ih]
    omega

theorem printedLength_reverse (xs : List Turn) : printedLength xs.reverse = printedLength xs := by
  induction xs with
  | nil => rfl
  | cons x xs ih =>
    rw [List.reverse_cons, printedLength_append, ih]
    simp only [printedLength]
    omega

theorem eq_nil_of_printedLength {turns : List Turn} (h : printedLength turns = 0) : turns = [] := by
  cases turns with
  | nil => rfl
  | cons turn turns =>
    unfold printedLength at h
    omega

theorem length_joinLines (turn : Turn) (turns : List Turn) :
    (joinLines ((turn :: turns).map formatTurn)).length + 1 = printedLength (turn :: turns) := by
  induction turns generalizing turn with
  | nil => simp [joinLines, List.intercalate, printedLength]
  | cons next turns ih =>
    have hcons : joinLines ((turn :: next :: turns).map formatTurn) =
        formatTurn turn ++ text "\n" ++ joinLines ((next :: turns).map formatTurn) := by
      simp [joinLines, List.intercalate]
    have hnl : (text "\n").length = 1 := rfl
    rw [hcons, printedLength, ← ih next, List.length_append, List.length_append, hnl]
    omega

/-- The results that Rust finds are those of JavaScript, or none. -/
theorem resultMap_eq_or (next : Option (List Char)) :
    (rust inRange).resultMap next = js.resultMap next ∨ (rust inRange).resultMap next = ∅ := by
  unfold Language.resultMap
  cases next with
  | none => exact .inl rfl
  | some line =>
    rw [Option.bind_some, Option.bind_some]
    cases hrust : (rust inRange).readLine line with
    | none => exact .inr rfl
    | some record =>
      rw [readLine_of_rust hrust]
      exact .inl rfl

/-- Tool calls without their results are shorter in print, unless the results are empty. -/
theorem printedLength_tools (uses : List ToolUse) (results : HashMap Text Text) :
    printedLength (uses.map fun tu => .tool tu.name tu.keyParam []) ≤
        printedLength (uses.map fun tu => .tool tu.name tu.keyParam ((results.lookup tu.id).getD [])) ∧
      (printedLength (uses.map fun tu => .tool tu.name tu.keyParam []) =
          printedLength (uses.map fun tu => .tool tu.name tu.keyParam ((results.lookup tu.id).getD [])) →
        (uses.map fun tu => Turn.tool tu.name tu.keyParam []) =
          uses.map fun tu => .tool tu.name tu.keyParam ((results.lookup tu.id).getD [])) := by
  induction uses with
  | nil => exact ⟨Nat.le_refl _, fun _ => rfl⟩
  | cons tu uses ih =>
    obtain ⟨hle, heq⟩ := ih
    have hlen : ∀ snippet, (formatTurn (.tool tu.name tu.keyParam snippet)).length =
        (formatTurn (.tool tu.name tu.keyParam [])).length + snippet.length := by
      intro snippet
      simp only [formatTurn, List.length_append, List.length_nil]
      omega
    simp only [List.map_cons, printedLength]
    rw [hlen ((results.lookup tu.id).getD [])]
    refine ⟨by omega, fun h => ?_⟩
    have hnil : (results.lookup tu.id).getD [] = [] := List.eq_nil_of_length_eq_zero (by omega)
    rw [hnil, heq (by omega)]

/-- What a line gives in Rust is no longer than in JavaScript, and as long only if it is the same. -/
theorem printedLength_lineTurns {line : List Char} (next : Option (List Char))
    (hparams : ∀ record ∈ (rust inRange).readLine line, hasType record "assistant" → SameParams record) :
    printedLength ((rust inRange).lineTurns line next) ≤ printedLength (js.lineTurns line next) ∧
      (printedLength ((rust inRange).lineTurns line next) = printedLength (js.lineTurns line next) →
        (rust inRange).lineTurns line next = js.lineTurns line next) := by
  unfold Language.lineTurns
  cases hrust : (rust inRange).readLine line with
  | none =>
    simp only
    exact ⟨Nat.zero_le _, fun h => (eq_nil_of_printedLength h.symm).symm⟩
  | some record =>
    rw [readLine_of_rust hrust]
    simp only
    split
    · exact ⟨Nat.le_refl _, fun _ => rfl⟩
    · split
      · rename_i hassistant
        have huses : (getContentArray record).filterMap (rust inRange).toolUse =
            (getContentArray record).filterMap js.toolUse :=
          List.filterMap_congr fun block hblock => (hparams record hrust hassistant).toolUse hblock
        unfold Language.assistantTurns
        simp only [huses]
        rcases resultMap_eq_or inRange next with hsame | hnone
        · rw [hsame]
          exact ⟨Nat.le_refl _, fun _ => rfl⟩
        · obtain ⟨hle, heq⟩ := printedLength_tools ((getContentArray record).filterMap js.toolUse) (js.resultMap next)
          rw [hnone, printedLength_append, printedLength_append]
          exact ⟨Nat.add_le_add_left hle _, fun h => congrArg _ (heq (Nat.add_left_cancel h))⟩
      · exact ⟨Nat.le_refl _, fun _ => rfl⟩

/-- Some lines together. -/
theorem printedLength_turns {lines : List (List Char)}
    (hparams : ∀ line ∈ lines, ∀ record ∈ (rust inRange).readLine line, hasType record "assistant" →
      SameParams record) :
    printedLength ((rust inRange).turns lines) ≤ printedLength (js.turns lines) ∧
      (printedLength ((rust inRange).turns lines) = printedLength (js.turns lines) →
        (rust inRange).turns lines = js.turns lines) := by
  induction lines with
  | nil => exact ⟨Nat.le_refl _, fun _ => rfl⟩
  | cons line rest ih =>
    obtain ⟨hle, heq⟩ := ih fun l hl => hparams l (List.mem_cons_of_mem _ hl)
    obtain ⟨hle', heq'⟩ := printedLength_lineTurns inRange rest.head? (hparams line List.mem_cons_self)
    unfold Language.turns
    rw [printedLength_append, printedLength_append]
    refine ⟨Nat.add_le_add hle' hle, fun h => ?_⟩
    rw [heq' (by omega), heq (by omega)]

theorem countP_assistantTurns (L : Language) (record : Value) (next : Option (List Char)) :
    (L.assistantTurns record next).countP Turn.isUser = 0 := by
  refine List.countP_eq_zero.mpr fun turn hturn => ?_
  unfold Language.assistantTurns at hturn
  rcases List.mem_append.mp hturn with hturn | hturn
  · split at hturn
    · cases hturn
    · rw [List.mem_singleton.mp hturn]
      exact Bool.false_ne_true
  · obtain ⟨tu, -, rfl⟩ := List.mem_map.mp hturn
    exact Bool.false_ne_true

/-- Rust counts no exchange that JavaScript does not. -/
theorem countP_isUser_le (lines : List (List Char)) :
    ((rust inRange).turns lines).countP Turn.isUser ≤ (js.turns lines).countP Turn.isUser := by
  induction lines with
  | nil => exact Nat.le_refl 0
  | cons line rest ih =>
    have hline : ((rust inRange).lineTurns line rest.head?).countP Turn.isUser ≤
        (js.lineTurns line rest.head?).countP Turn.isUser := by
      unfold Language.lineTurns
      cases hrust : (rust inRange).readLine line with
      | none => exact Nat.zero_le _
      | some record =>
        rw [readLine_of_rust hrust]
        simp only
        split
        · exact Nat.le_refl _
        · split
          · rw [countP_assistantTurns]
            exact Nat.zero_le _
          · exact Nat.le_refl _
    unfold Language.turns
    rw [List.countP_append, List.countP_append]
    exact Nat.add_le_add hline ih

theorem length_toDigits_mono {m n : Nat} (h : m ≤ n) : (Nat.toDigits 10 m).length ≤ (Nat.toDigits 10 n).length := by
  have hpos : 0 < (Nat.toDigits 10 n).length := Nat.length_toDigits_pos
  have hlt := (Nat.length_toDigits_le_iff (by decide) hpos).mp (Nat.le_refl (Nat.toDigits 10 n).length)
  exact (Nat.length_toDigits_le_iff (by decide) hpos).mpr (Nat.lt_of_le_of_lt h hlt)

/-- All turns fit. -/
def Fits (L : Language) (lines : List (List Char)) : Prop :=
  takeFitting 0 (L.buildExchangePairs lines) = L.buildExchangePairs lines

/-- Turns that take no more room than others and have no more exchanges, and print as the same block, take as much. -/
theorem printedLength_of_printBlock {xs ys : List Turn} (hle : printedLength xs ≤ printedLength ys)
    (husers : xs.countP Turn.isUser ≤ ys.countP Turn.isUser) (h : printBlock xs = printBlock ys) :
    printedLength xs = printedLength ys := by
  have hdigits := length_toDigits_mono husers
  unfold printBlock at h
  cases xs with
  | nil =>
    cases ys with
    | nil => rfl
    | cons y ys => cases h
  | cons x xs =>
    cases ys with
    | nil => cases h
    | cons y ys =>
      have hlen := congrArg List.length (Option.some.inj h)
      simp only [List.length_append, List.length_map] at hlen
      have hx := length_joinLines x xs
      have hy := length_joinLines y ys
      simp only [List.map_cons] at hx hy hlen
      omega

/-- **Where all turns fit and both take the same parameters, the blocks are the same iff each line gives the same
turns.** -/
theorem blockFromLines_eq_iff {lines : List (List Char)} (hjs : Fits js lines) (hrust : Fits (rust inRange) lines)
    (hparams : ∀ line ∈ lines, ∀ record ∈ (rust inRange).readLine line, hasType record "assistant" →
      SameParams record) :
    (rust inRange).blockFromLines lines = js.blockFromLines lines ↔ SameTurns inRange lines := by
  rw [← turns_eq_iff]
  unfold Fits Language.buildExchangePairs at hjs hrust
  unfold Language.blockFromLines Language.buildExchangePairs
  rw [hjs, hrust]
  refine ⟨fun h => ?_, fun h => by rw [h]⟩
  obtain ⟨hle, heq⟩ := printedLength_turns inRange hparams
  have husers := countP_isUser_le inRange lines
  rw [← printedLength_reverse ((rust inRange).turns lines), ← printedLength_reverse (js.turns lines)] at hle heq
  rw [← List.countP_reverse (l := (rust inRange).turns lines), ← List.countP_reverse (l := js.turns lines)] at husers
  exact heq (printedLength_of_printBlock hle husers h)

/-! ## The front ends -/

theorem ofUtf8_encode (cs : List Char) : ofUtf8 (encode cs) = some cs := by
  unfold ofUtf8
  simp only [decode_encode, if_true]

/-- Bytes that begin within a character are not UTF-8. -/
theorem ofUtf8_continuation {b : UInt8} (hb : IsContinuation b) (bytes : List UInt8) :
    ofUtf8 (b :: bytes) = none := by
  unfold ofUtf8
  simp only [decode_continuation hb]
  refine if_neg fun he => ?_
  rw [encode_cons, show String.utf8EncodeChar replacement = [0xEF, 0xBF, 0xBD] from rfl, List.cons_append] at he
  have hlt := hb.2
  rw [← (List.cons.inj he).1] at hlt
  exact absurd hlt (by decide)

theorem filterMap_ofUtf8 (lines : List (List Char)) : (lines.map encode).filterMap ofUtf8 = lines := by
  rw [List.filterMap_map]
  refine (List.filterMap_congr fun line _ => ofUtf8_encode line).trans List.filterMap_some

/-- A window of whole characters: all front ends see its lines. -/
theorem lines_of_boundary (cs : List Char) :
    Js.splitLinesLikeBufRead (encode cs) = Lines.lines '\n' '\r' cs ∧
      Rust.bufReadLines (encode cs) = Lines.lines '\n' '\r' cs := by
  unfold Js.splitLinesLikeBufRead Rust.bufReadLines
  rw [Lines.lines_encode, filterMap_ofUtf8]
  refine ⟨rfl, ?_⟩
  have hall : ((Lines.lines '\n' '\r' cs).map encode).map ofUtf8 = (Lines.lines '\n' '\r' cs).map some := by
    rw [List.map_map]
    exact List.map_congr_left fun line _ => ofUtf8_encode line
  have htake : ((Lines.lines '\n' '\r' cs).map some).takeWhile Option.isSome = (Lines.lines '\n' '\r' cs).map some :=
    List.takeWhile_eq_self_iff.mpr fun x hx => by
      obtain ⟨line, -, rfl⟩ := List.mem_map.mp hx
      rfl
  rw [hall, htake, List.reduceOption, List.filterMap_map]
  exact List.filterMap_some

/-- A window that begins within a character: the port drops the first line, the hook reads nothing, and the server
reads a first line that is no JSON. -/
theorem lines_of_cut {t : List UInt8} (hne : t ≠ []) (ht : ∀ b ∈ t, IsContinuation b) (cs : List Char) :
    Js.splitLinesLikeBufRead (t ++ encode cs) = (Lines.lines '\n' '\r' cs).tail ∧
      Rust.bufReadLines (t ++ encode cs) = [] ∧
      ∃ first, Lines.lines '\n' '\r' (decode (t ++ encode cs)) =
        (replacement :: first) :: (Lines.lines '\n' '\r' cs).tail := by
  have hnot : ∀ b : UInt8, b.toNat < 0x80 → b ∉ t := fun b hb hmem => absurd (ht b hmem).1 (Nat.not_le.mpr hb)
  obtain ⟨first, hfirst⟩ := Lines.lines_append 0x0A 0x0D hne (hnot _ (by decide)) (hnot _ (by decide)) (encode cs)
  rw [Lines.lines_encode, ← List.map_tail] at hfirst
  have hdecode : decode (t ++ encode cs) = List.replicate t.length replacement ++ cs := by
    clear hne hnot hfirst
    induction t with
    | nil => exact decode_encode cs
    | cons b t ih =>
      rw [List.cons_append, decode_continuation (ht b List.mem_cons_self),
        ih fun b hb => ht b (List.mem_cons_of_mem _ hb)]
      rfl
  obtain ⟨b, t, rfl⟩ := List.exists_cons_of_ne_nil hne
  have hinvalid : ofUtf8 (b :: t ++ first) = none := ofUtf8_continuation (ht b List.mem_cons_self) (t ++ first)
  refine ⟨?_, ?_, ?_⟩
  · unfold Js.splitLinesLikeBufRead
    rw [hfirst, List.filterMap_cons_none hinvalid, filterMap_ofUtf8]
  · unfold Rust.bufReadLines
    rw [hfirst, List.map_cons, hinvalid]
    rfl
  · have hchar : ∀ c, c ≠ replacement → c ∉ List.replicate (b :: t).length replacement := fun c hc hmem =>
      hc (List.eq_of_mem_replicate hmem)
    have hne' : List.replicate (b :: t).length replacement ≠ [] := fun he => by cases he
    obtain ⟨first', hfirst'⟩ := Lines.lines_append '\n' '\r' hne' (hchar _ (by decide)) (hchar _ (by decide)) cs
    rw [hdecode, hfirst']
    exact ⟨_, rfl⟩

/-- A line that cannot be read does not count where none comes before it. -/
theorem blockFromLines_cons {L : Language} {line : List Char} (h : L.readLine line = none) (rest : List (List Char)) :
    L.blockFromLines (line :: rest) = L.blockFromLines rest := by
  have hline : L.lineTurns line rest.head? = [] := by
    unfold Language.lineTurns
    rw [h]
  unfold Language.blockFromLines Language.buildExchangePairs
  rw [Language.turns, hline, List.nil_append]

/-- There is a block iff the newest turn fits. -/
theorem blockFromLines_eq_none_iff (L : Language) (lines : List (List Char)) :
    L.blockFromLines lines = none ↔
      ∀ turn ∈ (L.buildExchangePairs lines).head?, maxPrecompactBytes < byteLength (formatTurn turn) := by
  unfold Language.blockFromLines
  cases L.buildExchangePairs lines with
  | nil => exact ⟨fun _ turn hturn => (by cases hturn), fun _ => rfl⟩
  | cons turn turns =>
    simp only [takeFitting, Nat.zero_add, List.head?_cons, Option.mem_def, Option.some.injEq, forall_eq']
    split
    · rename_i hlt
      simp only [if_true, hlt]
    · rename_i hle
      rw [if_neg (List.cons_ne_nil _ _)]
      exact ⟨(fun h => by cases h), fun h => absurd h hle⟩

/-- **Parity**: where the lines of a window are read alike, the server's front end returns the block of the port, and
the hook's does iff the window begins with a whole character or there is nothing to restore. -/
theorem block_parity (cs : List Char) (k : Nat)
    (h : ∀ line ∈ Js.splitLinesLikeBufRead ((encode cs).drop k), Alike inRange line) :
    Rust.extractTranscriptBlockFromBytes inRange ((encode cs).drop k) =
      Js.extractTranscriptBlock ((encode cs).drop k) ∧
    (Rust.extractTranscriptBlock inRange ((encode cs).drop k) = Js.extractTranscriptBlock ((encode cs).drop k) ↔
      Boundary cs k ∨ ∀ turn ∈ (js.buildExchangePairs (Js.splitLinesLikeBufRead ((encode cs).drop k))).head?,
        maxPrecompactBytes < byteLength (formatTurn turn)) := by
  rcases Nat.lt_or_ge (encode cs).length k with hlong | hle
  · -- there is nothing in the window
    rw [List.drop_of_length_le (Nat.le_of_lt hlong)]
    exact ⟨rfl, fun _ => .inr fun turn hturn => (by cases hturn), fun _ => rfl⟩
  · obtain ⟨t, pre, post, rfl, hdrop, -, ht, hlen⟩ := drop_encode cs hle
    rw [hdrop] at h ⊢
    by_cases hne : t = []
    · subst hne
      obtain ⟨hjs, hrust⟩ := lines_of_boundary post
      have hbytes : Rust.extractTranscriptBlockFromBytes inRange (encode post) =
          Js.extractTranscriptBlock (encode post) := by
        unfold Rust.extractTranscriptBlockFromBytes Js.extractTranscriptBlock
        rw [decode_encode, ← hjs]
        exact blockFromLines_eq h
      have hpath : Rust.extractTranscriptBlock inRange (encode post) = Js.extractTranscriptBlock (encode post) := by
        unfold Rust.extractTranscriptBlock Js.extractTranscriptBlock
        rw [hrust, ← hjs]
        exact blockFromLines_eq h
      exact ⟨hbytes, fun _ => .inl ⟨pre, post, rfl, hlen⟩, fun _ => hpath⟩
    · obtain ⟨hjs, hrust, first, hfirst⟩ := lines_of_cut hne ht post
      have hread : (rust inRange).readLine (replacement :: first) = none := by
        rw [readLine_rust]
        exact parse_cons_eq_none _ (by decide) (by decide) first
      have hbytes : Rust.extractTranscriptBlockFromBytes inRange (t ++ encode post) =
          Js.extractTranscriptBlock (t ++ encode post) := by
        unfold Rust.extractTranscriptBlockFromBytes Js.extractTranscriptBlock
        rw [hfirst, blockFromLines_cons hread, ← hjs]
        exact blockFromLines_eq h
      have hcut : ¬ Boundary (pre ++ post) k := fun hb => by
        obtain ⟨rest, hrest⟩ := hb.drop
        obtain ⟨b, t, rfl⟩ := List.exists_cons_of_ne_nil hne
        exact not_continuation_of_encode (hrest.symm.trans hdrop) (ht b List.mem_cons_self)
      have hpath : Rust.extractTranscriptBlock inRange (t ++ encode post) = none := by
        unfold Rust.extractTranscriptBlock
        rw [hrust]
        rfl
      refine ⟨hbytes, ?_⟩
      rw [hpath, eq_comm, or_iff_right hcut]
      exact blockFromLines_eq_none_iff js _

end Parity

/-! ## Windows -/

/-- A character and a user record. -/
def userText : List Char :=
  "é\n\x7b\"type\":\"user\",\"content\":[\x7b\"type\":\"text\",\"text\":\"hi\"\x7d]\x7d".toList

theorem block_parity_userText :
    Rust.extractTranscriptBlockFromBytes (fun _ => true) ((encode userText).drop 1) =
      Js.extractTranscriptBlock ((encode userText).drop 1) ∧
    (Rust.extractTranscriptBlock (fun _ => true) ((encode userText).drop 1) =
        Js.extractTranscriptBlock ((encode userText).drop 1) ↔
      Boundary userText 1 ∨
        ∀ turn ∈ (js.buildExchangePairs (Js.splitLinesLikeBufRead ((encode userText).drop 1))).head?,
          maxPrecompactBytes < byteLength (formatTurn turn)) :=
  block_parity (fun _ => true) userText 1 (by decide +kernel)

/-- A tool call without a named field, and an array index among the names. -/
def indexText : List Char :=
  ("\x7b\"type\":\"assistant\",\"content\":[\x7b\"type\":\"tool_use\",\"id\":\"t\",\"name\":\"X\"," ++
    "\"input\":\x7b\"b\":\"x\",\"1\":\"y\"\x7d\x7d]\x7d").toList

/-- A text with an escape for half a pair. -/
def loneText : List Char :=
  "\x7b\"type\":\"user\",\"content\":[\x7b\"type\":\"text\",\"text\":\"\\ud83d\"\x7d]\x7d".toList

/-- The window begins within a character; an index is among the names of a tool's input; an escape writes half a
pair. -/
theorem blocks_differ :
    Rust.extractTranscriptBlock (fun _ => true) ((encode userText).drop 1) ≠
      Js.extractTranscriptBlock ((encode userText).drop 1) ∧
    Rust.extractTranscriptBlock (fun _ => true) (encode indexText) ≠ Js.extractTranscriptBlock (encode indexText) ∧
    Rust.extractTranscriptBlock (fun _ => true) (encode loneText) ≠ Js.extractTranscriptBlock (encode loneText) := by
  decide +kernel

end Unimatrix.TranscriptBlock
