import Unimatrix.Lib.Budget
import Unimatrix.Transcript.Block

/-!
# What a block has of the turns, and how long it is

`block_from_lines` prints the longest run of turns, the newest first, that is within the budget (`blockFromLines_eq`);
a tool call has no other result than one of its id in the next line (`pairs`). The budget counts the turns alone:
with the header, the footer and the line breaks between (`framing`) a block may be longer.

**`faithful_iff`**: the block is within the budget too, exactly if this run is empty or leaves room for the framing.
-/

namespace Unimatrix.TranscriptBlock

open Utf8 Json

/-! ## Blocks in print -/

/-- The bytes of a turn in print. -/
def turnBytes (turn : Turn) : Nat := byteLength (formatTurn turn)

/-- The block that some turns are printed as. -/
def printBlock (output : List Turn) : Option Text :=
  if output = [] then none
  else
    some (text "=== Recent conversation (last " ++ (Nat.toDigits 10 (output.countP Turn.isUser)).map .scalar ++
      text " exchanges) ===\n" ++ joinLines (output.map formatTurn) ++ text "\n=== End recent conversation ===")

/-- The bytes that a block has besides its turns: 78 of the header and the footer, the number, and the line breaks. -/
def framing (output : List Turn) : Nat :=
  78 + (Nat.toDigits 10 (output.countP Turn.isUser)).length + (output.length - 1)

theorem takeFitting_eq (bytesUsed : Nat) (turns : List Turn) :
    takeFitting bytesUsed turns = Budget.spend turnBytes maxPrecompactBytes bytesUsed turns := by
  induction turns generalizing bytesUsed with
  | nil => rfl
  | cons turn turns ih =>
    unfold takeFitting Budget.spend
    simp only [ih]
    rfl

theorem byteLength_append (s t : Text) : byteLength (s ++ t) = byteLength s + byteLength t := by
  unfold byteLength utf8
  rw [List.map_append, encode_append, List.length_append]

theorem utf8_scalar (s : List Char) : utf8 (s.map .scalar) = encode s := by
  unfold utf8
  rw [List.map_map]
  exact congrArg encode (List.map_id s)

/-- Digits take one byte each. -/
theorem byteLength_digits (n : Nat) : byteLength ((Nat.toDigits 10 n).map .scalar) = (Nat.toDigits 10 n).length := by
  unfold byteLength
  rw [utf8_scalar]
  refine length_encode_ascii fun c hc => ?_
  have hdigit := Nat.isDigit_of_mem_toDigits (b := 10) (by decide) (by decide) hc
  simp only [Char.isDigit, Bool.and_eq_true, decide_eq_true_eq, UInt32.le_iff_toNat_le] at hdigit
  have h9 : '9'.val.toNat = 57 := rfl
  have hval : c.val.toNat = c.toNat := rfl
  omega

theorem byteLength_joinLines (turn : Turn) (turns : List Turn) :
    byteLength (joinLines ((turn :: turns).map formatTurn)) = Budget.total turnBytes (turn :: turns) + turns.length := by
  induction turns generalizing turn with
  | nil => simp [joinLines, List.intercalate, turnBytes]
  | cons next turns ih =>
    have hcons : joinLines ((turn :: next :: turns).map formatTurn) =
        formatTurn turn ++ text "\n" ++ joinLines ((next :: turns).map formatTurn) := by
      simp [joinLines, List.intercalate]
    have hnl : byteLength (text "\n") = 1 := rfl
    have hturn : byteLength (formatTurn turn) = turnBytes turn := rfl
    rw [hcons, byteLength_append, byteLength_append, ih next, hnl, hturn, Budget.total_cons turnBytes turn,
      List.length_cons]
    omega

/-- **The length of a block.** -/
theorem byteLength_printBlock {output : List Turn} {block : Text} (h : printBlock output = some block) :
    byteLength block = Budget.total turnBytes output + framing output := by
  unfold printBlock at h
  split at h
  · cases h
  · rename_i hne
    obtain ⟨turn, turns, rfl⟩ := List.exists_cons_of_ne_nil hne
    have hheader : byteLength (text "=== Recent conversation (last ") = 30 := by decide +kernel
    have hexchanges : byteLength (text " exchanges) ===\n") = 16 := by decide +kernel
    have hfooter : byteLength (text "\n=== End recent conversation ===") = 32 := by decide +kernel
    obtain rfl := Option.some.inj h
    simp only [byteLength_append, byteLength_digits, byteLength_joinLines, hheader, hexchanges, hfooter]
    unfold framing
    rw [List.length_cons, Nat.add_sub_cancel]
    omega

/-! ## The turns of some lines -/

namespace Language

variable (L : Language) (lines : List (List Char))

/-- The turns of the line at a position. -/
def turnsAt (i : Nat) : List Turn := lines[i]?.elim [] fun line => L.lineTurns line lines[i + 1]?

/-- The turns of some lines, the oldest first. -/
def chronological : List Turn := (List.range lines.length).flatMap (L.turnsAt lines)

/-- The line at a position is of an assistant record with this tool call. -/
def CallAt (i : Nat) (tu : ToolUse) : Prop :=
  ∃ line ∈ lines[i]?, ∃ record ∈ L.readLine line, hasType record "assistant" ∧
    tu ∈ (getContentArray record).filterMap L.toolUse

/-- The line at a position is of a user record with this result for a tool call. -/
def ResultAt (i : Nat) (toolUseId snippet : Text) : Prop :=
  ∃ line ∈ lines[i]?, ∃ record ∈ L.readLine line, hasType record "user" ∧
    (toolUseId, snippet) ∈ (getContentArray record).filterMap toolResult

/-- What a block is to be: within the budget, the longest run of turns within it with the newest first, and no tool call
with a result that is not one of its id in the next line. -/
structure Faithful : Prop where
  within : ∀ block ∈ L.blockFromLines lines, byteLength block ≤ maxPrecompactBytes
  run : ∃ run, Budget.LongestWithin turnBytes maxPrecompactBytes (L.chronological lines).reverse run ∧
    L.blockFromLines lines = printBlock run
  pairs : ∀ name keyParam snippet, .tool name keyParam snippet ∈ L.buildExchangePairs lines →
    ∃ i tu, L.CallAt lines i tu ∧ tu.name = name ∧ tu.keyParam = keyParam ∧
      (snippet = [] ∨ L.ResultAt lines (i + 1) tu.id snippet)

variable {L lines}

theorem turns_eq_chronological : L.turns lines = L.chronological lines := by
  induction lines with
  | nil => rfl
  | cons line rest ih =>
    have hrest : (List.range rest.length).flatMap ((L.turnsAt (line :: rest)) ∘ Nat.succ) = L.chronological rest :=
      List.flatMap_congr fun i _ => rfl
    have hline : L.turnsAt (line :: rest) 0 = L.lineTurns line rest.head? := by
      unfold turnsAt
      rw [List.getElem?_cons_zero, Option.elim_some, List.getElem?_cons_succ, ← List.head?_eq_getElem?]
    unfold turns chronological
    rw [ih, List.length_cons, List.range_succ_eq_map, List.flatMap_cons, List.flatMap_map, hline]
    exact congrArg _ hrest.symm

/-- A turn of a line that is a tool call has its name, its parameter and a result from the next line. -/
theorem tool_mem_lineTurns {line : List Char} {next : Option (List Char)} {name keyParam snippet : Text}
    (h : .tool name keyParam snippet ∈ L.lineTurns line next) :
    ∃ record ∈ L.readLine line, hasType record "assistant" ∧ ∃ tu ∈ (getContentArray record).filterMap L.toolUse,
      tu.name = name ∧ tu.keyParam = keyParam ∧ snippet = ((L.resultMap next).lookup tu.id).getD [] := by
  unfold lineTurns at h
  cases hread : L.readLine line with
  | none =>
    rw [hread] at h
    cases h
  | some record =>
    rw [hread] at h
    simp only at h
    split at h
    · unfold userTurns at h
      simp only at h
      split at h
      · cases h
      · cases List.mem_singleton.mp h
    · split at h
      · rename_i hassistant
        refine ⟨record, rfl, hassistant, ?_⟩
        unfold assistantTurns at h
        rcases List.mem_append.mp h with h | h
        · split at h
          · cases h
          · cases List.mem_singleton.mp h
        · obtain ⟨tu, htu, heq⟩ := List.mem_map.mp h
          obtain ⟨rfl, rfl, rfl⟩ := Turn.tool.inj heq
          exact ⟨tu, htu, rfl, rfl, rfl⟩
      · cases h

/-- A result is one of the next line. -/
theorem resultMap_lookup {i : Nat} {toolUseId snippet : Text}
    (h : (L.resultMap lines[i]?).lookup toolUseId = some snippet) : L.ResultAt lines i toolUseId snippet := by
  unfold resultMap at h
  cases hread : lines[i]?.bind L.readLine with
  | none =>
    rw [hread] at h
    cases h
  | some record =>
    obtain ⟨line, hline, hrecord⟩ := Option.bind_eq_some_iff.mp hread
    rw [hread] at h
    simp only at h
    split at h
    · rename_i huser
      exact ⟨line, hline, record, hrecord, huser, HashMap.mem_of_lookup_collect h⟩
    · cases h

/-- **A tool call is paired with a result of the next line only.** -/
theorem tool_mem_turns {name keyParam snippet : Text} (h : .tool name keyParam snippet ∈ L.turns lines) :
    ∃ i tu, L.CallAt lines i tu ∧ tu.name = name ∧ tu.keyParam = keyParam ∧
      (snippet = [] ∨ L.ResultAt lines (i + 1) tu.id snippet) := by
  rw [turns_eq_chronological] at h
  obtain ⟨i, -, hturn⟩ := List.mem_flatMap.mp h
  unfold turnsAt at hturn
  cases hline : lines[i]? with
  | none =>
    rw [hline] at hturn
    cases hturn
  | some line =>
    rw [hline, Option.elim_some] at hturn
    obtain ⟨record, hrecord, hassistant, tu, htu, hname, hparam, hsnippet⟩ := tool_mem_lineTurns hturn
    refine ⟨i, tu, ⟨line, hline, record, hrecord, hassistant, htu⟩, hname, hparam, ?_⟩
    cases hlookup : (L.resultMap lines[i + 1]?).lookup tu.id with
    | none =>
      rw [hlookup] at hsnippet
      exact .inl hsnippet
    | some s =>
      rw [hlookup, Option.getD_some] at hsnippet
      subst hsnippet
      exact .inr (resultMap_lookup hlookup)

/-! ## The block -/

/-- **The block is the longest run of turns within the budget.** -/
theorem blockFromLines_eq (lines : List (List Char)) : ∃ run,
    Budget.LongestWithin turnBytes maxPrecompactBytes (L.chronological lines).reverse run ∧
      L.blockFromLines lines = printBlock run := by
  refine ⟨_, Budget.spend_longest turnBytes maxPrecompactBytes (L.chronological lines).reverse, ?_⟩
  rw [← takeFitting_eq, ← turns_eq_chronological]
  rfl

end Language

/-- **A block is as it is to be exactly if the turns within the budget leave room for the framing.** -/
theorem faithful_iff (L : Language) (lines : List (List Char)) :
    L.Faithful lines ↔ ∀ run,
      Budget.LongestWithin turnBytes maxPrecompactBytes (L.chronological lines).reverse run →
        run = [] ∨ Budget.total turnBytes run + framing run ≤ maxPrecompactBytes := by
  obtain ⟨run, hrun, hblock⟩ := L.blockFromLines_eq lines
  constructor
  · intro h run' hrun'
    obtain rfl := hrun.unique hrun'
    by_cases hne : run = []
    · exact .inl hne
    · right
      obtain ⟨block, hsome⟩ : ∃ block, printBlock run = some block := by
        unfold printBlock
        rw [if_neg hne]
        exact ⟨_, rfl⟩
      rw [← byteLength_printBlock hsome]
      exact h.within block (hblock.trans hsome)
  · intro h
    refine ⟨fun block hmem => ?_, ⟨run, hrun, hblock⟩, fun name keyParam snippet hturn => ?_⟩
    · have hsome := hblock.symm.trans hmem
      rw [byteLength_printBlock hsome]
      rcases h run hrun with rfl | hroom
      · cases hsome
      · exact hroom
    · exact Language.tool_mem_turns (List.mem_reverse.mp hturn)

/-- A user record with a text of 740 characters that take four bytes each. -/
def longText : List Char :=
  "\x7b\"type\":\"user\",\"content\":[\x7b\"type\":\"text\",\"text\":\"".toList ++ List.replicate 740 (Char.ofNat 0x1F600) ++
    "\"\x7d]\x7d".toList

/-- The turn has 2967 bytes and the block 3046. -/
theorem longText_beyond : ¬ (rust fun _ => true).Faithful [longText] := by
  intro h
  have hblock : ∃ block ∈ (rust fun _ => true).blockFromLines [longText], maxPrecompactBytes < byteLength block := by
    decide +kernel
  obtain ⟨block, hmem, hlt⟩ := hblock
  exact absurd (h.within block hmem) (not_le.mpr hlt)

end Unimatrix.TranscriptBlock
