import Mathlib.Data.List.Infix
import Unimatrix.Install.CodexUpsert

/-!
# The lines that are emitted

What `buildTomlEmit` returns are lines for `upsertTomlTable`, whatever the paths are: `tomlString` escapes the line endings
and closes the string it opens (`plain_buildTomlEmit`). To the scanner of the file they are quiet only without three single
quotes in a row (`quiet_buildTomlEmit`): inside a string of one line these say nothing in TOML, but `updateTripleState`
does not know such strings.

**`upsertTomlTable_surgical_iff`** is what writing the table comes to, for every file and every transport, and
`surgical_of_absent` a case of it that asks for the paths only.
-/

namespace Unimatrix.CodexInstall

open Install

/-! ## Escaped text -/

theorem hexDigit_not {n : UInt16} (hn : n < 16) :
    hexDigit n ∉ [unit '\n', unit '\r', unit '"', unit '\'', unit '#'] := by
  have hall : ∀ k : Fin 16, hexDigit (UInt16.ofNat k) ∉ [unit '\n', unit '\r', unit '"', unit '\'', unit '#'] := by
    decide
  have hlt : n.toNat < 16 := UInt16.lt_iff_toNat_lt.mp hn
  have := hall ⟨n.toNat, hlt⟩
  rwa [UInt16.ofNat_toNat] at this

/-- What a unit is escaped to: itself, a pair, or a number. -/
theorem escape_cases (c : UInt16) :
    (c ∉ [unit '\n', unit '\r', unit '"'] ∧ escape c = [c]) ∨
      (∃ d ∈ units "\\\"btnfr", escape c = [unit '\\', d]) ∨
      ∃ hi lo, hi < 16 ∧ lo < 16 ∧ escape c = units "\\u00" ++ [hexDigit hi, hexDigit lo] := by
  unfold escape
  repeat' split
  · exact .inr (.inl ⟨_, by decide, rfl⟩)
  · exact .inr (.inl ⟨_, by decide, rfl⟩)
  · exact .inr (.inl ⟨_, by decide, rfl⟩)
  · exact .inr (.inl ⟨_, by decide, rfl⟩)
  · exact .inr (.inl ⟨_, by decide, rfl⟩)
  · exact .inr (.inl ⟨_, by decide, rfl⟩)
  · exact .inr (.inl ⟨_, by decide, rfl⟩)
  · rename_i hcontrol
    refine .inr (.inr ⟨c / 16, c % 16, ?_, ?_, rfl⟩)
    · rcases hcontrol with hlt | rfl
      · have := UInt16.lt_iff_toNat_lt.mp hlt
        rw [UInt16.lt_iff_toNat_lt, UInt16.toNat_div]
        change c.toNat / 16 < 16
        change c.toNat < 32 at this
        omega
      · decide
    · rw [UInt16.lt_iff_toNat_lt, UInt16.toNat_mod]
      exact Nat.mod_lt _ (by decide)
  · rename_i hquote _ _ hnl _ hcr _
    refine .inl ⟨?_, rfl⟩
    simp only [List.mem_cons, List.not_mem_nil, or_false, not_or]
    exact ⟨hnl, hcr, hquote⟩

theorem escape_notMem (c : UInt16) : unit '\n' ∉ escape c ∧ unit '\r' ∉ escape c := by
  rcases escape_cases c with ⟨hc, he⟩ | ⟨d, hd, he⟩ | ⟨hi, lo, hhi, hlo, he⟩
  · rw [he, List.mem_singleton, List.mem_singleton]
    exact ⟨fun h => hc (h ▸ by decide), fun h => hc (h ▸ by decide)⟩
  · have hpair : ∀ d ∈ units "\\\"btnfr", unit '\n' ∉ [unit '\\', d] ∧ unit '\r' ∉ [unit '\\', d] :=
      forall_mem_of_all (by decide)
    rw [he]
    exact hpair d hd
  · have hhi := hexDigit_not hhi
    have hlo := hexDigit_not hlo
    have hu : unit '\n' ∉ units "\\u00" ∧ unit '\r' ∉ units "\\u00" := by decide
    simp only [List.mem_cons, not_or] at hhi hlo
    simp only [he, List.mem_append, List.mem_cons, List.not_mem_nil, or_false, not_or]
    exact ⟨⟨hu.1, fun h => hhi.1 h.symm, fun h => hlo.1 h.symm⟩,
      ⟨hu.2, fun h => hhi.2.1 h.symm, fun h => hlo.2.1 h.symm⟩⟩

theorem tomlString_notMem (s : Text) : unit '\n' ∉ tomlString s := by
  unfold tomlString
  simp only [List.mem_append, List.mem_flatMap, not_or, not_exists, not_and]
  exact ⟨⟨by decide, fun c _ => (escape_notMem c).1⟩, by decide⟩

/-! ## The lines can stand in a table -/

/-- A line that begins with a letter, and does not end with a carriage return. -/
theorem plain_line {c d : UInt16} {l : Text} (hspace : isSpace c = false) (hblank : isBlank c = false)
    (hc : c ∉ [unit '[', unit '\n']) (hd : d ∉ [unit '\r', unit '\n']) (hl : unit '\n' ∉ l) :
    unit '\n' ∉ c :: l ++ [d] ∧ (c :: l ++ [d]).getLast? ≠ some (unit '\r') ∧
      trimEnd (c :: l ++ [d]) ≠ [] ∧ headerOf (c :: l ++ [d]) = .ok none := by
  simp only [List.mem_cons, List.not_mem_nil, or_false, not_or] at hc hd
  refine ⟨?_, ?_, trimEnd_ne_nil List.mem_cons_self hspace, ?_⟩
  · simp only [List.mem_append, List.mem_cons, List.not_mem_nil, or_false, not_or]
    exact ⟨⟨fun h => hc.2 h.symm, hl⟩, fun h => hd.2 h.symm⟩
  · rw [List.getLast?_concat]
    exact fun h => hd.1 (Option.some.inj h)
  · have hopen : units "[" = [unit '['] ∧ units "[[" = [unit '[', unit '['] := by decide
    unfold headerOf
    rw [List.cons_append, List.dropWhile_cons_of_neg (by rw [hblank]; exact Bool.false_ne_true), hopen.1,
      hopen.2]
    dsimp only
    rw [List.isPrefixOf_cons_cons, List.isPrefixOf_cons_cons, beq_eq_false_iff_ne.mpr fun h => hc.1 h.symm]
    rfl

/-- **What is emitted can stand in a table.** -/
theorem plain_buildTomlEmit (transport : Transport) : Plain (buildTomlEmit transport) := by
  suffices h : buildTomlEmit transport ≠ [] ∧ ∀ l ∈ buildTomlEmit transport,
      unit '\n' ∉ l ∧ l.getLast? ≠ some (unit '\r') ∧ trimEnd l ≠ [] ∧ headerOf l = .ok none from
    ⟨h.1, fun l hl => (h.2 l hl).1, fun l hl => (h.2 l hl).2.1, fun l hl => (h.2 l hl).2.2.1,
      fun l hl => (h.2 l hl).2.2.2⟩
  have hquoted : ∀ s : Text, unit '\n' ∉ units "\"" ++ s.flatMap escape := fun s hmem =>
    tomlString_notMem s (List.mem_append_left _ hmem)
  cases transport with
  | stdioBinary binaryPath =>
    refine ⟨List.cons_ne_nil _ _, List.forall_mem_singleton.mpr ?_⟩
    refine plain_line (c := unit 'c') (d := unit '"')
      (l := units "ommand = " ++ (units "\"" ++ binaryPath.flatMap escape)) rfl rfl (by decide) (by decide) ?_
    rw [List.mem_append, not_or]
    exact ⟨by decide, hquoted binaryPath⟩
  | stdioBridge bridgePath projectHash =>
    refine ⟨List.cons_ne_nil _ _, List.forall_mem_cons.mpr ⟨?_, List.forall_mem_singleton.mpr ?_⟩⟩
    · exact ⟨by decide, by decide, by decide, by decide⟩
    · refine plain_line (c := unit 'a') (d := unit ']') (l := units "rgs = [" ++ tomlString bridgePath ++
        units ", " ++ tomlString projectHash) rfl rfl (by decide) (by decide) ?_
      simp only [List.mem_append, not_or]
      exact ⟨⟨⟨by decide, tomlString_notMem bridgePath⟩, by decide⟩, tomlString_notMem projectHash⟩

/-! ## The scanner on what is emitted -/

/-- No unit of these opens or closes anything. -/
theorem updateTripleFrom_plain {w : Text} (hw : ∀ c ∈ w, c ∉ [unit '"', unit '\'', unit '#']) (more : Text) :
    updateTripleFrom 0 none (w ++ more) = updateTripleFrom 0 none more := by
  induction w with
  | nil => rfl
  | cons c w ih =>
    have hc := hw c List.mem_cons_self
    have hnot : ∀ triple : Triple, triple.delimiter.isPrefixOf (c :: (w ++ more)) = false := by
      intro triple
      by_contra h
      obtain ⟨rest, hrest⟩ := List.isPrefixOf_iff_prefix.mp ((Bool.not_eq_false _).mp h)
      cases triple
      · obtain rfl : unit '"' = c := (List.cons.inj hrest).1
        exact hc (by decide)
      · obtain rfl : unit '\'' = c := (List.cons.inj hrest).1
        exact hc (by decide)
    have hcomment : c ≠ unit '#' := by
      rintro rfl
      exact hc (by decide)
    rw [List.cons_append, updateTripleFrom, hnot, hnot, if_neg hcomment]
    exact ih fun d hd => hw d (List.mem_cons_of_mem _ hd)

/-- One double quote does not open a string of several lines. -/
theorem updateTripleFrom_single {more : Text} (h : ¬ [unit '"', unit '"'] <+: more) :
    updateTripleFrom 0 none (unit '"' :: more) = updateTripleFrom 0 none more := by
  rw [updateTripleFrom, if_neg, if_neg, if_neg (by decide)]
  · intro hopen
    exact absurd (List.cons_prefix_cons.mp (List.isPrefixOf_iff_prefix.mp hopen)).1 (by decide)
  · intro hopen
    exact h (List.cons_prefix_cons.mp (List.isPrefixOf_iff_prefix.mp hopen)).2

section Escaped

variable {tail : Text}

/-- Single quotes in front of a string that is escaped and closed are the text's own. -/
theorem literal_of_escaped {n : Nat} {s : Text}
    (h : List.replicate n (unit '\'') <+: s.flatMap escape ++ unit '"' :: tail) :
    List.replicate n (unit '\'') <+: s := by
  induction n generalizing s with
  | zero => exact List.nil_prefix
  | succ n ih =>
    rw [List.replicate_succ] at h ⊢
    cases s with
    | nil => exact absurd (List.cons_prefix_cons.mp h).1 (by decide)
    | cons c s =>
      rw [List.flatMap_cons, List.append_assoc] at h
      rcases escape_cases c with ⟨-, he⟩ | ⟨d, -, he⟩ | ⟨hi, lo, -, -, he⟩
      · rw [he, List.singleton_append, List.cons_prefix_cons] at h
        exact List.cons_prefix_cons.mpr ⟨h.1, ih h.2⟩
      · rw [he] at h
        exact absurd (List.cons_prefix_cons.mp h).1 (by decide)
      · rw [he] at h
        exact absurd (List.cons_prefix_cons.mp h).1 (by decide)

/-- A double quote in front of it is the one that closes the string. -/
theorem closing_of_escaped {s more : Text} (h : s.flatMap escape ++ unit '"' :: tail = unit '"' :: more) :
    more = tail := by
  cases s with
  | nil => exact (List.cons.inj h).2.symm
  | cons c s =>
    rw [List.flatMap_cons, List.append_assoc] at h
    rcases escape_cases c with ⟨hc, he⟩ | ⟨d, -, he⟩ | ⟨hi, lo, -, -, he⟩
    · rw [he] at h
      obtain rfl := (List.cons.inj h).1
      exact absurd (by decide) hc
    · rw [he] at h
      exact absurd (List.cons.inj h).1 (by decide)
    · rw [he] at h
      exact absurd (List.cons.inj h).1 (by decide)

theorem not_two_of_escaped (htail : tail.head? ≠ some (unit '"')) (s : Text) :
    ¬ [unit '"', unit '"'] <+: s.flatMap escape ++ unit '"' :: tail := by
  rintro ⟨more, hmore⟩
  exact htail (closing_of_escaped hmore.symm ▸ rfl)

/-- A string without three single quotes in a row is closed where it ends, or is in a comment. -/
theorem updateTripleFrom_escaped {s : Text} (hliteral : ¬ List.replicate 3 (unit '\'') <:+: s)
    (htail : tail.head? ≠ some (unit '"')) (hclose : updateTripleFrom 0 none (unit '"' :: tail) = none) :
    updateTripleFrom 0 none (s.flatMap escape ++ unit '"' :: tail) = none := by
  induction s with
  | nil => exact hclose
  | cons c s ih =>
    have ih := ih fun h => hliteral (h.trans (List.suffix_cons c s).isInfix)
    rw [List.flatMap_cons, List.append_assoc]
    rcases escape_cases c with ⟨hc, he⟩ | ⟨d, hd, he⟩ | ⟨hi, lo, hhi, hlo, he⟩
    · rw [he, List.singleton_append, updateTripleFrom]
      split
      · rename_i hbasic
        obtain rfl := (List.cons_prefix_cons.mp (List.isPrefixOf_iff_prefix.mp hbasic)).1
        exact absurd (by decide) hc
      · split
        · rename_i hopen
          obtain ⟨rfl, htwo⟩ := List.cons_prefix_cons.mp (List.isPrefixOf_iff_prefix.mp hopen)
          have hthree : List.replicate 3 (unit '\'') <+: unit '\'' :: s :=
            List.cons_prefix_cons.mpr ⟨rfl, literal_of_escaped (n := 2) htwo⟩
          exact absurd hthree.isInfix hliteral
        · split
          · rfl
          · exact ih
    · have hback : ∀ more : Text, updateTripleFrom 0 none (unit '\\' :: more) = updateTripleFrom 0 none more :=
        updateTripleFrom_plain (w := [unit '\\']) (forall_mem_of_all (by decide))
      rw [he, List.cons_append, List.singleton_append, hback]
      by_cases hquote : d = unit '"'
      · rw [hquote, updateTripleFrom_single (not_two_of_escaped htail s)]
        exact ih
      · have hplain : ∀ d ∈ units "\\\"btnfr", d ≠ unit '"' → d ∉ [unit '"', unit '\'', unit '#'] :=
          forall_mem_of_all (by decide)
        exact (updateTripleFrom_plain (w := [d]) (List.forall_mem_singleton.mpr (hplain d hd hquote)) _).trans ih
    · rw [he]
      refine (updateTripleFrom_plain (fun x hx => ?_) _).trans ih
      have hu : ∀ x ∈ units "\\u00", x ∉ [unit '"', unit '\'', unit '#'] :=
        forall_mem_of_all (by decide)
      have hsub : [unit '"', unit '\'', unit '#'] ⊆ [unit '\n', unit '\r', unit '"', unit '\'', unit '#'] := by
        decide
      rcases List.mem_append.mp hx with hx | hx
      · exact hu x hx
      · rcases List.mem_cons.mp hx with rfl | hx
        · exact fun h => hexDigit_not hhi (hsub h)
        · obtain rfl := List.mem_singleton.mp hx
          exact fun h => hexDigit_not hlo (hsub h)

theorem updateTripleFrom_tomlString {s : Text} (hliteral : ¬ List.replicate 3 (unit '\'') <:+: s)
    (htail : tail.head? ≠ some (unit '"')) (hclose : updateTripleFrom 0 none tail = none) :
    updateTripleFrom 0 none (tomlString s ++ tail) = none := by
  have hsplit : tomlString s ++ tail = unit '"' :: (s.flatMap escape ++ unit '"' :: tail) := by
    unfold tomlString
    rw [List.append_assoc]
    rfl
  have hone : ¬ [unit '"', unit '"'] <+: tail := by
    rintro ⟨more, rfl⟩
    exact htail rfl
  rw [hsplit, updateTripleFrom_single (not_two_of_escaped htail s)]
  refine updateTripleFrom_escaped hliteral htail ?_
  rw [updateTripleFrom_single hone]
  exact hclose

end Escaped

/-- The strings of a transport. -/
def Transport.strings : Transport → List Text
  | .stdioBinary binaryPath => [binaryPath]
  | .stdioBridge bridgePath projectHash => [bridgePath, projectHash]

/-- **Without three single quotes in a row nothing is left open.** -/
theorem quiet_buildTomlEmit {transport : Transport}
    (h : ∀ s ∈ transport.strings, ¬ List.replicate 3 (unit '\'') <:+: s) :
    tripleAfter none (buildTomlEmit transport) = none := by
  have hplain := plain_buildTomlEmit transport
  have hstrip : tripleAfter none (buildTomlEmit transport) =
      (buildTomlEmit transport).foldl (fun state line => updateTripleState line state) none := by
    unfold tripleAfter
    refine List.foldl_ext _ _ _ fun state line hline => ?_
    rw [stripLineEnding_of_notMem (hplain.notMem line hline)]
  have hopen : ∀ (w s tail : Text), (∀ c ∈ w, c ∉ [unit '"', unit '\'', unit '#']) →
      ¬ List.replicate 3 (unit '\'') <:+: s → tail.head? ≠ some (unit '"') →
      updateTripleFrom 0 none tail = none → updateTripleFrom 0 none (w ++ tomlString s ++ tail) = none := by
    intro w s tail hw hs htail hclose
    rw [List.append_assoc, updateTripleFrom_plain hw]
    exact updateTripleFrom_tomlString hs htail hclose
  rw [hstrip]
  cases transport with
  | stdioBinary binaryPath =>
    have hpath := h binaryPath List.mem_cons_self
    have hline := hopen (units "command = ") binaryPath [] (forall_mem_of_all (by decide)) hpath (by decide) (by decide)
    rw [List.append_nil] at hline
    exact hline
  | stdioBridge bridgePath projectHash =>
    have hpath := h bridgePath List.mem_cons_self
    have hhash := h projectHash (List.mem_cons_of_mem _ List.mem_cons_self)
    have htail := hopen (units ", ") projectHash (units "]") (forall_mem_of_all (by decide)) hhash (by decide)
      (by decide)
    have hline := hopen (units "args = [") bridgePath (units ", " ++ tomlString projectHash ++ units "]")
      (forall_mem_of_all (by decide))
      hpath (show some (unit ',') ≠ some (unit '"') by decide) htail
    have hnode : updateTripleState (units "command = \"node\"") none = none := by decide
    unfold buildTomlEmit
    rw [List.foldl_cons, hnode, List.foldl_cons, List.foldl_nil]
    unfold updateTripleState
    simp only [List.append_assoc] at hline ⊢
    exact hline

/-! ## Writing the table -/

theorem regionOf_eq_none {raw : Text} (h : (readTomlTable raw ownedTable).present = false) :
    regionOf raw = none := by
  unfold readTomlTable at h
  unfold regionOf
  dsimp only at h
  cases hscan : scanTables (splitKeepEndings raw) with
  | error e => rfl
  | ok tables =>
    rw [hscan] at h
    dsimp only at h ⊢
    cases hpos : findOwned tables ownedTable with
    | none => rfl
    | some pos =>
      rw [hpos] at h
      cases h

/-- A table is added to any file without one, for paths without three single quotes in a row. -/
theorem surgical_of_absent {raw : Text} {transport : Transport}
    (hraw : (readTomlTable raw ownedTable).malformed = false)
    (habsent : (readTomlTable raw ownedTable).present = false)
    (hquiet : ∀ s ∈ transport.strings, ¬ List.replicate 3 (unit '\'') <:+: s) :
    Surgical raw (buildTomlEmit transport) (upsertTomlTable raw ownedTable (buildTomlEmit transport)).text := by
  refine (surgical_iff_writable (plain_buildTomlEmit transport) hraw).mpr ?_
  unfold Writable
  rw [regionOf_eq_none habsent]
  exact quiet_buildTomlEmit hquiet

/-- **Writing the table.** -/
theorem upsertTomlTable_surgical_iff (raw : Text) (transport : Transport)
    (h : (readTomlTable raw ownedTable).malformed = false) :
    Surgical raw (buildTomlEmit transport) (upsertTomlTable raw ownedTable (buildTomlEmit transport)).text ↔
      Writable raw (buildTomlEmit transport) :=
  surgical_iff_writable (plain_buildTomlEmit transport) h

/-- A table that is there, with another path. -/
theorem upsertTomlTable_surgical_iff_old :
    Surgical (units "[mcp_servers.unimatrix]\ncommand = \"/old\"\n\n[tui]\n")
      (buildTomlEmit (.stdioBinary (units "/usr/bin/unimatrix")))
      (upsertTomlTable (units "[mcp_servers.unimatrix]\ncommand = \"/old\"\n\n[tui]\n") ownedTable
        (buildTomlEmit (.stdioBinary (units "/usr/bin/unimatrix")))).text := by
  refine (upsertTomlTable_surgical_iff _ _ (by decide +kernel)).mpr ?_
  have hregion : regionOf (units "[mcp_servers.unimatrix]\ncommand = \"/old\"\n\n[tui]\n") = some (1, 3) := by
    decide +kernel
  unfold Writable
  rw [hregion]
  exact .inr ⟨units "[mcp_servers.unimatrix]\n", by decide +kernel, by decide, by decide +kernel⟩

/-- A header that no line ending follows: the command is written on the line of the header, where it is not read. -/
theorem header_glued :
    (readTomlTable (units "[mcp_servers.unimatrix]") ownedTable).malformed = false ∧
      upsertTomlTable (units "[mcp_servers.unimatrix]") ownedTable
        (buildTomlEmit (.stdioBinary (units "/usr/bin/unimatrix"))) =
        ⟨units "[mcp_servers.unimatrix]command = \"/usr/bin/unimatrix\"\n", true, false⟩ ∧
      ¬ Surgical (units "[mcp_servers.unimatrix]") (buildTomlEmit (.stdioBinary (units "/usr/bin/unimatrix")))
        (units "[mcp_servers.unimatrix]command = \"/usr/bin/unimatrix\"\n") := by
  refine ⟨by decide +kernel, by decide +kernel, fun h => ?_⟩
  have hbody := h.body
  revert hbody
  decide +kernel

end Unimatrix.CodexInstall
