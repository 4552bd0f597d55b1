import Unimatrix.Transcript.Parity

/-!
# The two front ends of the server on one window

`extract_transcript_block` reads the lines of the tail of a file up to the first that is not UTF-8
(`bufReadLines`); `extract_transcript_block_from_bytes` reads the others too, with replacement
(**`lines_window`**). So they return the same block where these lines are `Silent`: where they give no turn, and the
first of them no result to a tool call before it.

**`window_parity`**: this is enough for any file, and where all turns are within the budget it is needed. It can fail
without a line that was damaged when it was written: a window may begin within a character.
-/

namespace Unimatrix.TranscriptBlock

open Utf8 Json

/-- `TAIL_MULTIPLIER`. -/
def tailMultiplier : Nat := 4

/-- The window that `extract_transcript_block` reads of a file. -/
def tailWindow (file : List UInt8) : List UInt8 :=
  let window := maxPrecompactBytes * tailMultiplier
  let seekBack := min window file.length
  file.drop (file.length - seekBack)

/-- The lines of a window from the first on that is not UTF-8, read with replacement. -/
def lostLines (window : List UInt8) : List (List Char) :=
  ((Lines.lines 0x0A 0x0D window).dropWhile fun line => (ofUtf8 line).isSome).map decode

/-- Nothing in the lines that are lost counts: they give no turn, and to the last line before them no result. -/
structure Silent (L : Language) (kept lost : List (List Char)) : Prop where
  turns : L.turns lost = []
  results : ∀ line ∈ kept.getLast?, L.lineTurns line lost.head? = L.lineTurns line none

/-! ## The lines of a window -/

theorem ofUtf8_eq_some {bytes : List UInt8} (h : (ofUtf8 bytes).isSome) : ofUtf8 bytes = some (decode bytes) := by
  unfold ofUtf8 at h ⊢
  simp only at h ⊢
  split
  · rfl
  · rename_i hne
    rw [if_neg hne] at h
    cases h

theorem bufReadLines_eq (window : List UInt8) : Rust.bufReadLines window =
    ((Lines.lines 0x0A 0x0D window).takeWhile fun line => (ofUtf8 line).isSome).map decode := by
  unfold Rust.bufReadLines
  generalize Lines.lines 0x0A 0x0D window = lines
  induction lines with
  | nil => rfl
  | cons line lines ih =>
    rw [List.map_cons, List.takeWhile_cons, List.takeWhile_cons]
    split
    · rename_i hsome
      rw [ofUtf8_eq_some hsome, List.map_cons, ← ih]
      rfl
    · rfl

/-- **The server reads the lines that the hook reads, and those it does not.** -/
theorem lines_window (window : List UInt8) :
    Lines.lines '\n' '\r' (decode window) = Rust.bufReadLines window ++ lostLines window := by
  rw [Lines.lines_decode, bufReadLines_eq, lostLines, ← List.map_append, List.takeWhile_append_dropWhile]

/-! ## A line without its results -/

/-- `a` are the turns `b`, but for the results of tool calls. -/
structure Unanswered (a b : List Turn) : Prop where
  length : a.length = b.length
  users : a.countP Turn.isUser = b.countP Turn.isUser
  bytes : Budget.total turnBytes a ≤ Budget.total turnBytes b
  printed : printedLength a ≤ printedLength b
  same : printedLength a = printedLength b → a = b

theorem Unanswered.refl (a : List Turn) : Unanswered a a := ⟨rfl, rfl, le_rfl, le_rfl, fun _ => rfl⟩

theorem Unanswered.append (a : List Turn) {b c : List Turn} (h : Unanswered b c) : Unanswered (a ++ b) (a ++ c) where
  length := by rw [List.length_append, List.length_append, h.length]
  users := by rw [List.countP_append, List.countP_append, h.users]
  bytes := by
    rw [Budget.total_append, Budget.total_append]
    exact Nat.add_le_add_left h.bytes _
  printed := by
    rw [printedLength_append, printedLength_append]
    exact Nat.add_le_add_left h.printed _
  same heq := by
    rw [printedLength_append, printedLength_append] at heq
    rw [h.same (Nat.add_left_cancel heq)]

theorem turnBytes_tool_le (name keyParam snippet : Text) :
    turnBytes (.tool name keyParam []) ≤ turnBytes (.tool name keyParam snippet) := by
  unfold turnBytes formatTurn
  simp only [byteLength_append]
  have hnil : byteLength [] = 0 := rfl
  omega

/-- Tool calls without their results. -/
theorem unanswered_tools (uses : List ToolUse) (results : HashMap Text Text) :
    Unanswered (uses.map fun tu => .tool tu.name tu.keyParam [])
      (uses.map fun tu => .tool tu.name tu.keyParam ((results.lookup tu.id).getD [])) := by
  obtain ⟨hprinted, hsame⟩ := printedLength_tools uses results
  refine ⟨by rw [List.length_map, List.length_map], ?_, ?_, hprinted, hsame⟩
  · rw [List.countP_map, List.countP_map]
    rfl
  · clear hprinted hsame
    induction uses with
    | nil => exact Nat.le_refl _
    | cons tu uses ih =>
      rw [List.map_cons, List.map_cons, Budget.total_cons, Budget.total_cons]
      exact Nat.add_le_add (turnBytes_tool_le _ _ _) ih

/-- **The line after it only adds results to what a line gives.** -/
theorem unanswered_lineTurns (L : Language) (line : List Char) (next : Option (List Char)) :
    Unanswered (L.lineTurns line none) (L.lineTurns line next) := by
  unfold Language.lineTurns
  cases L.readLine line with
  | none => exact .refl []
  | some record =>
    simp only
    split
    · exact .refl _
    · split
      · exact (unanswered_tools _ (L.resultMap next)).append _
      · exact .refl []

/-! ## Lines that are lost -/

section Lost

variable (L : Language) (kept lost : List (List Char))

/-- Of some lines the last gives what it gives with what follows it, and the others do not depend on that. -/
theorem turns_concat (lines : List (List Char)) (line : List Char) : ∃ init, ∀ lost,
    L.turns (lines ++ line :: lost) = init ++ (L.lineTurns line lost.head? ++ L.turns lost) := by
  induction lines with
  | nil => exact ⟨[], fun lost => rfl⟩
  | cons first lines ih =>
    obtain ⟨init, hinit⟩ := ih
    refine ⟨L.lineTurns first (lines ++ [line]).head? ++ init, fun lost => ?_⟩
    have hhead : (lines ++ line :: lost).head? = (lines ++ [line]).head? := by
      cases lines <;> rfl
    rw [List.cons_append, Language.turns, hinit, hhead, List.append_assoc]

/-- With the lost lines there are the same turns, but for results, and theirs. -/
theorem turns_kept : ∃ b, Unanswered (L.turns kept) b ∧ L.turns (kept ++ lost) = b ++ L.turns lost ∧
    (b = L.turns kept ↔ ∀ line ∈ kept.getLast?, L.lineTurns line lost.head? = L.lineTurns line none) := by
  cases kept using List.reverseRecOn with
  | nil => exact ⟨[], .refl [], rfl, fun _ line hline => (by cases hline), fun _ => rfl⟩
  | append_singleton lines line =>
    obtain ⟨init, hinit⟩ := turns_concat L lines line
    have hkept : L.turns (lines ++ [line]) = init ++ L.lineTurns line none := by
      rw [hinit]
      exact congrArg _ (List.append_nil _)
    refine ⟨init ++ L.lineTurns line lost.head?, ?_, ?_, ?_⟩
    · rw [hkept]
      exact (unanswered_lineTurns L line lost.head?).append init
    · rw [List.append_assoc, List.singleton_append, hinit, List.append_assoc]
    · rw [hkept, List.append_cancel_left_eq, List.getLast?_concat]
      exact ⟨fun h line' hline' => Option.some.inj hline' ▸ h, fun h => h line rfl⟩

/-- **Lines that are silent are those that change no turn.** -/
theorem silent_iff : Silent L kept lost ↔ L.turns (kept ++ lost) = L.turns kept := by
  obtain ⟨b, hb, hturns, hsame⟩ := turns_kept L kept lost
  rw [hturns]
  constructor
  · intro h
    rw [h.turns, List.append_nil]
    exact hsame.mpr h.results
  · intro h
    have hlen := congrArg List.length h
    rw [List.length_append, hb.length] at hlen
    have hnil : L.turns lost = [] := List.length_eq_zero_iff.mp (by omega)
    rw [hnil, List.append_nil] at h
    exact ⟨hnil, hsame.mp h⟩

theorem Silent.block_eq {L : Language} {kept lost : List (List Char)} (h : Silent L kept lost) :
    L.blockFromLines kept = L.blockFromLines (kept ++ lost) := by
  unfold Language.blockFromLines Language.buildExchangePairs
  rw [(silent_iff L kept lost).mp h]

theorem fits_iff (lines : List (List Char)) :
    Fits L lines ↔ Budget.total turnBytes (L.turns lines) ≤ maxPrecompactBytes := by
  unfold Fits Language.buildExchangePairs
  rw [takeFitting_eq, (Budget.spend_longest turnBytes maxPrecompactBytes _).eq_iff, Budget.total_reverse]

theorem fits_kept {L : Language} {kept lost : List (List Char)} (h : Fits L (kept ++ lost)) : Fits L kept := by
  rw [fits_iff] at h ⊢
  obtain ⟨b, hb, hturns, -⟩ := turns_kept L kept lost
  rw [hturns, Budget.total_append] at h
  have hbytes := hb.bytes
  omega

/-- **Where all turns fit, only silent lines leave the block as it is.** -/
theorem silent_of_block_eq {L : Language} {kept lost : List (List Char)} (hfits : Fits L (kept ++ lost))
    (h : L.blockFromLines kept = L.blockFromLines (kept ++ lost)) : Silent L kept lost := by
  have hkept := fits_kept hfits
  unfold Fits Language.buildExchangePairs at hfits hkept
  unfold Language.blockFromLines Language.buildExchangePairs at h
  rw [hfits, hkept] at h
  obtain ⟨b, hb, hturns, -⟩ := turns_kept L kept lost
  have hprinted := hb.printed
  have husers := hb.users
  have hlen : printedLength (L.turns kept).reverse = printedLength (L.turns (kept ++ lost)).reverse := by
    refine printedLength_of_printBlock ?_ ?_ h
    · rw [printedLength_reverse, printedLength_reverse, hturns, printedLength_append]
      omega
    · rw [List.countP_reverse, List.countP_reverse, hturns, List.countP_append]
      omega
  rw [printedLength_reverse, printedLength_reverse, hturns, printedLength_append] at hlen
  have hnil : L.turns lost = [] := eq_nil_of_printedLength (by omega)
  rw [silent_iff, hturns, hnil, List.append_nil]
  exact (hb.same (by omega)).symm

end Lost

/-! ## The front ends -/

/-- **Parity on a window**: the hook's front end and the server's return the same block of the tail of a file if the
lines from the first one that is not UTF-8 on are silent, and where all turns fit only then. -/
theorem window_parity (inRange : List Char → Bool) (file : List UInt8) :
    (Silent (rust inRange) (Rust.bufReadLines (tailWindow file)) (lostLines (tailWindow file)) →
      Rust.extractTranscriptBlock inRange (tailWindow file) =
        Rust.extractTranscriptBlockFromBytes inRange (tailWindow file)) ∧
    (Fits (rust inRange) (Lines.lines '\n' '\r' (decode (tailWindow file))) →
      (Rust.extractTranscriptBlock inRange (tailWindow file) =
          Rust.extractTranscriptBlockFromBytes inRange (tailWindow file) ↔
        Silent (rust inRange) (Rust.bufReadLines (tailWindow file)) (lostLines (tailWindow file)))) := by
  unfold Rust.extractTranscriptBlock Rust.extractTranscriptBlockFromBytes
  rw [lines_window]
  exact ⟨Silent.block_eq, fun hfits => ⟨silent_of_block_eq hfits, Silent.block_eq⟩⟩

/-- A line with a user record, and a byte that is none of UTF-8. -/
def damaged : List UInt8 := (encode userText).drop 3 ++ [0x0A, 0xFF]

/-- The damaged line says nothing, and the block is the same. -/
theorem window_parity_damaged :
    Rust.extractTranscriptBlock (fun _ => true) (tailWindow damaged) =
      Rust.extractTranscriptBlockFromBytes (fun _ => true) (tailWindow damaged) ∧
    (Rust.extractTranscriptBlock (fun _ => true) (tailWindow damaged) =
        Rust.extractTranscriptBlockFromBytes (fun _ => true) (tailWindow damaged) ↔
      Silent (rust fun _ => true) (Rust.bufReadLines (tailWindow damaged)) (lostLines (tailWindow damaged))) := by
  obtain ⟨henough, hneeded⟩ := window_parity (fun _ => true) damaged
  have hsilent : Silent (rust fun _ => true) (Rust.bufReadLines (tailWindow damaged))
      (lostLines (tailWindow damaged)) := ⟨by decide +kernel, by decide +kernel⟩
  have hfits : Fits (rust fun _ => true) (Lines.lines '\n' '\r' (decode (tailWindow damaged))) := by
    unfold Fits
    decide +kernel
  exact ⟨henough hsilent, hneeded hfits⟩

/-- The second byte of a character, and a line with a user record: the hook restores nothing. -/
theorem windows_differ :
    Rust.extractTranscriptBlock (fun _ => true) (tailWindow ((encode userText).drop 1)) ≠
      Rust.extractTranscriptBlockFromBytes (fun _ => true) (tailWindow ((encode userText).drop 1)) := by
  decide +kernel

end Unimatrix.TranscriptBlock
