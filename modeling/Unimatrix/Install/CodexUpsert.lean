import Mathlib.Data.List.Infix
import Unimatrix.Install.CodexScan

/-!
# Upserting the table

`upsertTomlTable` replaces the lines between the header of the owned table and the next header, or appends the table to
the file. `Surgical` is what it is for: the rest of the file stays, the result can be read, what is read is what was
written, and writing it again changes nothing.

A header on the last line that no line ending follows is written on (the branch that appends does end the last line
first), and lines that open a multi-line string for the scanner, and do not close it, make the rest of the file a part of
it. `Writable` leaves these out.

* `surgical_replaced`, `not_surgical_glued`, `surgical_appended` and `surgical_unchanged` are the four cases.
* **`surgical_iff_writable`**: on a file that is not malformed the upsert of plain lines is surgical exactly if they are
  writable.
-/

namespace Unimatrix.CodexInstall

open Install KeptLines

/-! ## What is claimed, and when it holds -/

/-- The region of the owned table, if the file has one. -/
def regionOf (raw : Text) : Option (Nat × Nat) :=
  match scanTables (splitKeepEndings raw) with
  | .error _ => none
  | .ok tables => (findOwned tables ownedTable).map fun pos =>
      ownedRegion tables pos (splitKeepEndings raw).length

/-- Only the region is replaced, or the table is appended behind line endings. -/
def KeepsOutside (raw out : Text) : Prop :=
  match regionOf raw with
  | some region => ∃ body, out = ((splitKeepEndings raw).take region.1).flatten ++ body ++
      ((splitKeepEndings raw).drop region.2).flatten
  | none => ∃ sep body, (∀ c ∈ sep, c = unit '\r' ∨ c = unit '\n') ∧
      out = raw ++ sep ++ (units "[" ++ ownedTable ++ units "]") ++ body

/-- `out` is the file with the lines in its table, and nothing else is different. -/
structure Surgical (raw : Text) (bodyLines : List Text) (out : Text) : Prop where
  outside : KeepsOutside raw out
  wellFormed : (readTomlTable out ownedTable).malformed = false
  present : (readTomlTable out ownedTable).present = true
  body : bodyEquals (splitKeepEndings (readTomlTable out ownedTable).body) bodyLines = true
  again : upsertTomlTable out ownedTable bodyLines = ⟨out, false, false⟩

/-- The lines are there, or they leave no multi-line string open behind the header, which ends its line. -/
def Writable (raw : Text) (bodyLines : List Text) : Prop :=
  match regionOf raw with
  | none => tripleAfter none bodyLines = none
  | some region => bodyEquals (slice (splitKeepEndings raw) region) bodyLines = true ∨
      ∃ hdr, (splitKeepEndings raw)[region.1 - 1]? = some hdr ∧ hdr.getLast? = some (unit '\n') ∧
        tripleAfter none (hdr :: bodyLines) = none

/-- Lines that can stand in a table: not blank, no headers and without a line ending. -/
structure Plain (bodyLines : List Text) : Prop where
  nonempty : bodyLines ≠ []
  notMem : ∀ l ∈ bodyLines, unit '\n' ∉ l
  last : ∀ l ∈ bodyLines, l.getLast? ≠ some (unit '\r')
  notBlank : ∀ l ∈ bodyLines, trimEnd l ≠ []
  noHeader : ∀ l ∈ bodyLines, headerOf l = .ok none

/-! ## Line endings -/

/-- What `dominantLineEnding` returns. -/
def IsEnding (nl : Text) : Prop := nl = [unit '\n'] ∨ nl = [unit '\r', unit '\n']

theorem dominantLineEnding_isEnding (raw : Text) : IsEnding (dominantLineEnding raw) := by
  unfold dominantLineEnding IsEnding
  dsimp only
  split
  · exact .inr rfl
  · exact .inl rfl

theorem stripLineEnding_of_notMem {l : Text} (h : unit '\n' ∉ l) : stripLineEnding l = l :=
  if_neg fun hlast => h (List.mem_of_getLast? hlast)

/-- With its ending, a line is its content, but for a carriage return before a bare line feed. -/
theorem stripLineEnding_append {l nl : Text} (hnl : IsEnding nl) :
    stripLineEnding (l ++ nl) = l ∨ l = stripLineEnding (l ++ nl) ++ [unit '\r'] := by
  rcases hnl with rfl | rfl
  · unfold stripLineEnding
    rw [List.getLast?_concat, if_pos rfl, List.dropLast_concat]
    split
    · rename_i hcr
      right
      exact (List.dropLast_append_getLast? _ hcr).symm
    · exact .inl rfl
  · left
    have hsplit : l ++ [unit '\r', unit '\n'] = (l ++ [unit '\r']) ++ [unit '\n'] := by
      rw [List.append_assoc]
      rfl
    unfold stripLineEnding
    rw [hsplit, List.getLast?_concat, if_pos rfl, List.dropLast_concat, List.getLast?_concat, if_pos rfl,
      List.dropLast_concat]

theorem stripLineEnding_append_of_last {l nl : Text} (hnl : IsEnding nl)
    (hlast : l.getLast? ≠ some (unit '\r')) : stripLineEnding (l ++ nl) = l := by
  refine (stripLineEnding_append hnl).resolve_right fun h => hlast ?_
  rw [h, List.getLast?_concat]

theorem ended_append {l nl : Text} (hnl : IsEnding nl) (h : unit '\n' ∉ l) :
    Ended (unit '\n') (l ++ nl) := by
  rcases hnl with rfl | rfl
  · exact ⟨l, h, rfl⟩
  · refine ⟨l ++ [unit '\r'], ?_, by rw [List.append_assoc]; rfl⟩
    rw [List.mem_append, not_or]
    exact ⟨h, by decide⟩

theorem trimEnd_append {nl : Text} (hnl : IsEnding nl) (l : Text) : trimEnd (l ++ nl) = trimEnd l := by
  have hspace : ∀ c ∈ nl.reverse, isSpace c = true := by
    rcases hnl with rfl | rfl
    · exact forall_mem_of_all (by decide)
    · exact forall_mem_of_all (by decide)
  unfold trimEnd List.rdropWhile
  rw [List.reverse_append, List.dropWhile_append_of_pos hspace]

/-- The ending of a line is nothing to the scanner. -/
theorem scanLine_append {l nl : Text} (hnl : IsEnding nl) (h : unit '\n' ∉ l) (s : Scan) :
    scanLine s (l ++ nl) = scanLine s l := by
  have hstrip := stripLineEnding_of_notMem h
  unfold scanLine
  rcases stripLineEnding_append (l := l) hnl with hsame | hcr
  · rw [hsame, hstrip]
  · have hheader := headerOf_cr (stripLineEnding (l ++ nl))
    have htriple := updateTripleState_cr (stripLineEnding (l ++ nl)) s.inTriple
    rw [← hcr] at hheader htriple
    dsimp only
    rw [hstrip, hheader, htriple]

/-- A line that is an ending only is passed over. -/
theorem scanLine_ending {nl : Text} (hnl : IsEnding nl) (i : Nat) (tables : List TableHeader) :
    scanLine ⟨none, i, tables⟩ nl = .ok ⟨none, i + 1, tables⟩ := by
  rcases hnl with rfl | rfl
  · exact scanLine_skip (.inr (by decide)) i tables
  · exact scanLine_skip (.inr (by decide)) i tables

/-! ## The lines that are written -/

section Written

variable {bodyLines : List Text} {nl : Text}

theorem Plain.strip (h : Plain bodyLines) (hnl : IsEnding nl) {l : Text} (hl : l ∈ bodyLines) :
    stripLineEnding (l ++ nl) = l := stripLineEnding_append_of_last hnl (h.last l hl)

theorem Plain.ended (h : Plain bodyLines) (hnl : IsEnding nl) :
    ∀ l ∈ bodyLines.map (· ++ nl), Ended (unit '\n') l := by
  intro l hl
  obtain ⟨l', hl', rfl⟩ := List.mem_map.mp hl
  exact ended_append hnl (h.notMem l' hl')

theorem Plain.headerless (h : Plain bodyLines) (hnl : IsEnding nl) {ls : List Text}
    (hls : ls ⊆ bodyLines.map (· ++ nl)) (inTriple : Option Triple) : Headerless inTriple ls := by
  refine headerless_of_headerOf (fun l hl => ?_) inTriple
  obtain ⟨l', hl', rfl⟩ := List.mem_map.mp (hls hl)
  rw [h.strip hnl hl']
  exact h.noHeader l' hl'

theorem Plain.tripleAfter (h : Plain bodyLines) (hnl : IsEnding nl) (inTriple : Option Triple) :
    tripleAfter inTriple (bodyLines.map (· ++ nl)) = CodexInstall.tripleAfter inTriple bodyLines := by
  unfold CodexInstall.tripleAfter
  rw [List.foldl_map]
  refine List.foldl_ext _ _ _ fun state l hl => ?_
  rw [h.strip hnl hl, stripLineEnding_of_notMem (h.notMem l hl)]

theorem normalizeBody_map (hnl : IsEnding nl) (lines : List Text) :
    normalizeBody (lines.map (· ++ nl)) = normalizeBody lines := by
  unfold normalizeBody
  rw [List.map_map]
  congr 1
  exact List.map_congr_left fun l _ => trimEnd_append hnl l

theorem bodyEquals_map (hnl : IsEnding nl) (a lines : List Text) :
    bodyEquals a (lines.map (· ++ nl)) = bodyEquals a lines := by
  unfold bodyEquals
  rw [normalizeBody_map hnl]

/-- Lines are the body they are written as. -/
theorem bodyEquals_written (hnl : IsEnding nl) (lines : List Text) :
    bodyEquals (lines.map (· ++ nl)) lines = true := by
  rw [← bodyEquals_map hnl]
  unfold bodyEquals
  exact beq_self_eq_true _

theorem length_lt_rdropWhile {y : Text} (hy : y ≠ []) (x z : List Text) :
    x.length < ((x ++ y :: z).rdropWhile List.isEmpty).length := by
  induction z using List.reverseRecOn with
  | nil =>
    rw [List.rdropWhile_concat_neg _ _ _ (by simpa using hy)]
    simp
  | append_singleton z last ih =>
    rw [← List.cons_append, ← List.append_assoc]
    by_cases hlast : last.isEmpty = true
    · rw [List.rdropWhile_concat_pos _ _ _ hlast]
      exact ih
    · rw [List.rdropWhile_concat_neg _ _ _ hlast]
      simp only [List.length_append, List.length_cons]
      omega

/-- A body is as long as its last line that is not blank is far down, or longer. -/
theorem length_normalizeBody {a : List Text} {c : Text} (hc : trimEnd c ≠ []) (b : List Text) :
    a.length < (normalizeBody (a ++ c :: b)).length := by
  unfold normalizeBody
  rw [List.map_append, List.map_cons]
  have := length_lt_rdropWhile hc (a.map trimEnd) (b.map trimEnd)
  rwa [List.length_map] at this

theorem length_normalizeBody_le (a : List Text) : (normalizeBody a).length ≤ a.length := by
  unfold normalizeBody
  exact (List.rdropWhile_prefix _ (l := a.map trimEnd)).length_le.trans (List.length_map _).le

theorem Plain.length_normalizeBody (h : Plain bodyLines) :
    (normalizeBody bodyLines).length = bodyLines.length := by
  refine Nat.le_antisymm (length_normalizeBody_le bodyLines) ?_
  have hlast := List.dropLast_concat_getLast h.nonempty
  have := CodexInstall.length_normalizeBody (a := bodyLines.dropLast)
    (h.notBlank _ (List.getLast_mem h.nonempty)) []
  rw [hlast, List.length_dropLast] at this
  have := List.length_pos_iff.mpr h.nonempty
  omega

/-- A body with a line more, that is not blank, is another one. -/
theorem Plain.bodyEquals_more (h : Plain bodyLines) {a : List Text} {c : Text} (b : List Text)
    (ha : bodyLines.length ≤ a.length) (hc : trimEnd c ≠ []) : bodyEquals (a ++ c :: b) bodyLines = false := by
  unfold bodyEquals
  rw [beq_eq_false_iff_ne]
  intro he
  have hlen := CodexInstall.length_normalizeBody (a := a) hc b
  rw [he, h.length_normalizeBody] at hlen
  omega

/-- A body with fewer lines is another one. -/
theorem Plain.bodyEquals_fewer (h : Plain bodyLines) {a : List Text} (ha : a.length < bodyLines.length) :
    bodyEquals a bodyLines = false := by
  unfold bodyEquals
  rw [beq_eq_false_iff_ne]
  intro he
  have hlen := length_normalizeBody_le a
  rw [he, h.length_normalizeBody] at hlen
  omega

end Written

/-! ## Reading the result -/

theorem wellFormed_iff {raw path : Text} :
    (readTomlTable raw path).malformed = false ↔ ∃ tables, scanTables (splitKeepEndings raw) = .ok tables := by
  unfold readTomlTable
  dsimp only
  cases scanTables (splitKeepEndings raw) with
  | error e =>
    constructor
    · intro h
      cases h
    · rintro ⟨tables, h⟩
      cases h
  | ok tables =>
    refine ⟨fun _ => ⟨tables, rfl⟩, fun _ => ?_⟩
    dsimp only
    split <;> rfl

/-- What is read of a file with the table. -/
theorem OwnedAt.read {out hdr path : Text} {pre body rest : List Text} {before tables : List TableHeader}
    (h : OwnedAt (splitKeepEndings out) path pre hdr body rest before)
    (hscan : scanTables (splitKeepEndings out) = .ok tables) :
    ∃ more, more <+: rest ∧ readTomlTable out path = ⟨true, (body ++ more).flatten, false⟩ ∧
      splitKeepEndings (body ++ more).flatten = body ++ more := by
  obtain ⟨hpos, more, hmore, hslice, -⟩ := h.region hscan
  refine ⟨more, hmore, ?_, ?_⟩
  · unfold readTomlTable
    simp only [hscan, hpos, hslice]
  · obtain ⟨after, rfl⟩ := hmore
    have hlines : split (unit '\n') out = (pre ++ [hdr]) ++ ((body ++ more) ++ after) := by
      rw [show split (unit '\n') out = splitKeepEndings out from rfl, h.lines_eq]
      simp only [List.append_assoc, List.singleton_append]
    exact split_flatten_infix hlines

/-- The lines are there, and nothing more: the text is the file with them. -/
theorem surgical_of_owned {raw out hdr nl : Text} {bodyLines pre rest : List Text}
    {before tables : List TableHeader} (hnl : IsEnding nl) (houtside : KeepsOutside raw out)
    (h : OwnedAt (splitKeepEndings out) ownedTable pre hdr (bodyLines.map (· ++ nl)) rest before)
    (hscan : scanTables (splitKeepEndings out) = .ok tables)
    (hend : rest = [] ∨ tripleAfter none (hdr :: bodyLines.map (· ++ nl)) = none ∧
      ∃ next after header, rest = next :: after ∧ headerOf (stripLineEnding next) = .ok (some header)) :
    Surgical raw bodyLines out := by
  obtain ⟨hpos, more, hmore, hslice, hnone⟩ := h.region hscan
  obtain rfl := hnone hend
  rw [List.append_nil] at hslice
  have hlines : split (unit '\n') out = (pre ++ [hdr]) ++ (bodyLines.map (· ++ nl) ++ rest) := by
    rw [show split (unit '\n') out = splitKeepEndings out from rfl, h.lines_eq]
    simp only [List.append_assoc, List.singleton_append]
  have hread : readTomlTable out ownedTable = ⟨true, (bodyLines.map (· ++ nl)).flatten, false⟩ := by
    unfold readTomlTable
    simp only [hscan, hpos, hslice]
  refine ⟨houtside, ?_, ?_, ?_, ?_⟩
  · rw [hread]
  · rw [hread]
  · rw [hread]
    dsimp only
    rw [show splitKeepEndings (bodyLines.map (· ++ nl)).flatten = bodyLines.map (· ++ nl) from
      split_flatten_infix hlines]
    exact bodyEquals_written hnl bodyLines
  · unfold upsertTomlTable
    simp only [hscan, hpos, hslice]
    rw [bodyEquals_map (dominantLineEnding_isEnding out), if_pos (bodyEquals_written hnl bodyLines)]

/-- If the region cannot be the lines, wherever it ends, the text is not the file with them. -/
theorem not_surgical {raw out hdr : Text} {bodyLines pre body rest : List Text} {before : List TableHeader}
    (h : OwnedAt (splitKeepEndings out) ownedTable pre hdr body rest before)
    (hne : ∀ more, more <+: rest → bodyEquals (body ++ more) bodyLines = false) :
    ¬ Surgical raw bodyLines out := by
  intro hs
  obtain ⟨tables, hscan⟩ := wellFormed_iff.mp hs.wellFormed
  obtain ⟨more, hmore, hread, hsplit⟩ := h.read hscan
  have hbody := hs.body
  rw [hread] at hbody
  dsimp only at hbody
  rw [hsplit, hne more hmore] at hbody
  cases hbody

/-! ## A file with the table -/

theorem regionOf_of_located {raw hdr : Text} {tables before : List TableHeader} {pre body rest : List Text}
    (hscan : scanTables (splitKeepEndings raw) = .ok tables)
    (h : Located (splitKeepEndings raw) ownedTable tables pre hdr body rest before)
    (hpos : findOwned tables ownedTable = some before.length) :
    regionOf raw = some (pre.length + 1, pre.length + 1 + body.length) := by
  unfold regionOf
  rw [hscan]
  dsimp only
  rw [hpos]
  exact congrArg some h.region

theorem OwnedAt.slice {lines pre body rest : List Text} {path hdr : Text} {before : List TableHeader}
    (h : OwnedAt lines path pre hdr body rest before) :
    slice lines (pre.length + 1, pre.length + 1 + body.length) = body := by
  unfold CodexInstall.slice
  rw [h.lines_eq, List.drop_append, List.drop_of_length_le (by omega)]
  simp

theorem OwnedAt.outside {lines pre body rest : List Text} {path hdr : Text} {before : List TableHeader}
    (h : OwnedAt lines path pre hdr body rest before) :
    lines.take (pre.length + 1) = pre ++ [hdr] ∧ lines.drop (pre.length + 1 + body.length) = rest := by
  have hlines : lines = (pre ++ [hdr]) ++ (body ++ rest) := by
    rw [h.lines_eq, List.append_assoc, List.singleton_append]
  have hlength : (pre ++ [hdr]).length = pre.length + 1 := by
    rw [List.length_append, List.length_singleton]
  constructor
  · rw [hlines, ← hlength, List.take_left]
  · rw [hlines, ← hlength, ← List.length_append, ← List.append_assoc, List.drop_left]

/-- The upsert of a located table. -/
theorem upsert_of_located {raw hdr : Text} {tables before : List TableHeader} {pre body rest : List Text}
    (bodyLines : List Text) (hscan : scanTables (splitKeepEndings raw) = .ok tables)
    (h : Located (splitKeepEndings raw) ownedTable tables pre hdr body rest before)
    (hpos : findOwned tables ownedTable = some before.length) :
    upsertTomlTable raw ownedTable bodyLines =
      if bodyEquals body bodyLines then ⟨raw, false, false⟩
      else ⟨(pre ++ [hdr] ++ bodyLines.map (· ++ dominantLineEnding raw) ++ rest).flatten, true, false⟩ := by
  unfold upsertTomlTable
  simp only [hscan, hpos, h.region, h.toOwnedAt.slice, h.toOwnedAt.outside.1, h.toOwnedAt.outside.2]
  rw [bodyEquals_map (dominantLineEnding_isEnding raw)]

/-- The text of a line that is not blank has something on it. -/
theorem trimEnd_ne_nil {c : UInt16} {l : Text} (hc : c ∈ l) (hspace : isSpace c = false) : trimEnd l ≠ [] := by
  intro hnil
  have := List.rdropWhile_eq_nil_iff.mp hnil c hc
  rw [hspace] at this
  cases this

theorem mem_of_mem_stripLineEnding {c : UInt16} {l : Text} (h : c ∈ stripLineEnding l) : c ∈ l := by
  unfold stripLineEnding at h
  split at h
  · split at h
    · exact List.mem_of_mem_dropLast (List.mem_of_mem_dropLast h)
    · exact List.mem_of_mem_dropLast h
  · exact h

/-- A string that the lines leave open takes in a line of the rest, or the file ends in it. -/
theorem not_surgical_open {raw out hdr nl : Text} {bodyLines pre rest : List Text} {before : List TableHeader}
    (hB : Plain bodyLines)
    (h : OwnedAt (splitKeepEndings out) ownedTable pre hdr (bodyLines.map (· ++ nl)) rest before)
    (hopen : tripleAfter none (hdr :: bodyLines.map (· ++ nl)) ≠ none) : ¬ Surgical raw bodyLines out := by
  intro hsurgical
  obtain ⟨triple, hopen⟩ := Option.ne_none_iff_exists'.mp hopen
  obtain ⟨tables, hscan⟩ := wellFormed_iff.mp hsurgical.wellFormed
  obtain ⟨i, hall⟩ := scanTables_eq_ok.mp hscan
  rw [h.lines_eq, ← List.cons_append, ← List.append_assoc] at hall
  obtain ⟨m, hm, hmore⟩ := scanFrom_append.mp hall
  rw [h.scan] at hm
  cases hm
  rw [hopen] at hmore
  obtain ⟨a, c, b, hrest, hquiet, hquote⟩ := closing_line hmore rfl
  -- the string swallows the lines up to the one that closes it
  have hlonger : OwnedAt (splitKeepEndings out) ownedTable pre hdr (bodyLines.map (· ++ nl) ++ (a ++ [c])) b
      before := by
    refine ⟨?_, h.pre_scan, h.first, h.header, h.headerless.append ?_⟩
    · rw [h.lines_eq, hrest]
      simp only [List.append_assoc, List.singleton_append]
    · have hafter : tripleAfter (updateTripleState (stripLineEnding hdr) none) (bodyLines.map (· ++ nl)) =
          some triple := hopen
      rw [hafter]
      exact hquiet
  refine not_surgical hlonger (fun more _ => ?_) hsurgical
  have hblank : trimEnd c ≠ [] := by
    rcases hquote with hquote | hquote
    · exact trimEnd_ne_nil (mem_of_mem_stripLineEnding hquote) (by decide)
    · exact trimEnd_ne_nil (mem_of_mem_stripLineEnding hquote) (by decide)
  rw [← List.append_assoc, List.append_assoc, List.singleton_append]
  refine hB.bodyEquals_more more ?_ hblank
  rw [List.length_append, List.length_map]
  exact Nat.le_add_right _ _

/-- Behind a header that ends its line the lines written are the region. -/
theorem Located.replaced {raw hdr nl : Text} {bodyLines pre body rest : List Text} {tables before : List TableHeader}
    (h : Located (splitKeepEndings raw) ownedTable tables pre hdr body rest before) (hB : Plain bodyLines)
    (hnl : IsEnding nl) (hended : ∀ l ∈ pre ++ [hdr], Ended (unit '\n') l) :
    OwnedAt (splitKeepEndings (pre ++ [hdr] ++ bodyLines.map (· ++ nl) ++ rest).flatten) ownedTable pre hdr
      (bodyLines.map (· ++ nl)) rest before := by
  refine ⟨?_, h.pre_scan, h.first, h.header, hB.headerless hnl (List.Subset.refl _) _⟩
  have hrest : split (unit '\n') rest.flatten = rest := by
    have hraw : split (unit '\n') raw = (pre ++ hdr :: body) ++ rest := by
      rw [show split (unit '\n') raw = splitKeepEndings raw from rfl, h.lines_eq, List.append_assoc,
        List.cons_append]
    exact split_flatten_suffix hraw
  unfold splitKeepEndings
  rw [List.flatten_append, split_append (List.forall_mem_append.mpr ⟨hended, hB.ended hnl⟩), hrest]
  simp only [List.append_assoc, List.cons_append, List.nil_append]

/-- Replacing the region of a header that ends its line. -/
theorem surgical_replaced {raw hdr nl : Text} {bodyLines pre body rest : List Text}
    {tables before : List TableHeader} (hB : Plain bodyLines) (hnl : IsEnding nl)
    (h : Located (splitKeepEndings raw) ownedTable tables pre hdr body rest before)
    (hregion : regionOf raw = some (pre.length + 1, pre.length + 1 + body.length))
    (hended : ∀ l ∈ pre ++ [hdr], Ended (unit '\n') l) :
    Surgical raw bodyLines (pre ++ [hdr] ++ bodyLines.map (· ++ nl) ++ rest).flatten ↔
      tripleAfter none (hdr :: bodyLines) = none := by
  have howned := h.replaced hB hnl hended
  have hstate : tripleAfter none (hdr :: bodyLines.map (· ++ nl)) = tripleAfter none (hdr :: bodyLines) :=
    hB.tripleAfter hnl _
  constructor
  · intro hsurgical
    by_contra hopen
    exact not_surgical_open hB howned (hstate.trans_ne hopen) hsurgical
  · intro hquiet
    obtain ⟨s, hs, hclosed⟩ := h.rest_scan
    obtain ⟨s', hs', hclosed'⟩ := scanFrom_elsewhere hs (pre.length + 1 + (bodyLines.map (· ++ nl)).length)
      (before ++ [⟨pre.length, ownedTable, false⟩])
    have hscan : scanTables (splitKeepEndings
        (pre ++ [hdr] ++ bodyLines.map (· ++ nl) ++ rest).flatten) = .ok s'.tables := by
      refine scanTables_eq_ok.mpr ⟨s'.index, ?_⟩
      rw [howned.lines_eq, ← List.cons_append, ← List.append_assoc]
      refine scanFrom_append.mpr ⟨_, howned.scan, ?_⟩
      rw [hstate, hquiet]
      refine hs'.trans ?_
      rw [← hclosed, ← hclosed']
    refine surgical_of_owned hnl ?_ howned hscan ?_
    · unfold KeepsOutside
      rw [hregion]
      refine ⟨(bodyLines.map (· ++ nl)).flatten, ?_⟩
      rw [h.toOwnedAt.outside.1, h.toOwnedAt.outside.2, List.flatten_append, List.flatten_append]
    · exact h.next.imp_right fun hnext => ⟨hstate.trans hquiet, hnext⟩

/-- Replacing the region of a header on the last line, with no ending: the first line written goes behind the header. -/
theorem not_surgical_glued {raw hdr nl : Text} {bodyLines pre body rest : List Text}
    {tables before : List TableHeader} (hB : Plain bodyLines) (hnl : IsEnding nl)
    (h : Located (splitKeepEndings raw) ownedTable tables pre hdr body rest before)
    (hnot : unit '\n' ∉ hdr) :
    ¬ Surgical raw bodyLines (pre ++ [hdr] ++ bodyLines.map (· ++ nl) ++ rest).flatten := by
  have hlines : split (unit '\n') raw = pre ++ hdr :: (body ++ rest) := h.lines_eq
  have hpre : ∀ l ∈ pre, Ended (unit '\n') l := ended_of_split hlines (List.cons_ne_nil _ _)
  have hlast : body ++ rest = [] := by
    by_contra hmore
    rw [← List.singleton_append, ← List.append_assoc] at hlines
    obtain ⟨content, -, rfl⟩ := ended_of_split hlines hmore hdr
      (List.mem_append_right _ (List.mem_singleton_self _))
    exact hnot (List.mem_append_right _ (List.mem_singleton_self _))
  obtain ⟨b, bs, rfl⟩ := List.exists_cons_of_ne_nil hB.nonempty
  have hb := List.mem_cons_self (a := b) (l := bs)
  have hbnil : b ≠ [] := by
    rintro rfl
    exact hB.notBlank [] hb rfl
  have hmem : unit '\n' ∉ hdr ++ b := by
    rw [List.mem_append, not_or]
    exact ⟨hnot, hB.notMem b hb⟩
  have htail : bs.map (· ++ nl) ⊆ (b :: bs).map (· ++ nl) := List.subset_cons_self _ _
  have hsplit : splitKeepEndings (pre ++ [hdr] ++ (b :: bs).map (· ++ nl) ++ rest).flatten =
      pre ++ (hdr ++ b ++ nl) :: (bs.map (· ++ nl) ++ []) := by
    have hflat : (pre ++ [hdr] ++ (b :: bs).map (· ++ nl) ++ rest).flatten =
        (pre ++ (hdr ++ b ++ nl) :: bs.map (· ++ nl)).flatten ++ [] := by
      rw [(List.append_eq_nil_iff.mp hlast).2]
      simp [List.flatten_append]
    unfold splitKeepEndings
    have hended : ∀ l ∈ pre ++ (hdr ++ b ++ nl) :: bs.map (· ++ nl), Ended (unit '\n') l :=
      List.forall_mem_append.mpr ⟨hpre, List.forall_mem_cons.mpr
        ⟨ended_append hnl hmem, fun l hl => hB.ended hnl l (htail hl)⟩⟩
    rw [hflat, split_append hended, List.append_assoc]
    rfl
  have hheader : headerOf (stripLineEnding (hdr ++ b ++ nl)) = .ok (some (ownedTable, false)) := by
    have hown := h.header
    rw [stripLineEnding_of_notMem hnot] at hown
    rw [stripLineEnding_append_of_last hnl]
    · exact headerOf_append hown b
    · rw [List.getLast?_append_of_ne_nil _ hbnil]
      exact hB.last b hb
  refine not_surgical ⟨hsplit, h.pre_scan, h.first, hheader, hB.headerless hnl htail _⟩ fun more hmore => ?_
  obtain rfl := List.prefix_nil.mp hmore
  rw [List.append_nil]
  refine hB.bodyEquals_fewer ?_
  rw [List.length_map, List.length_cons]
  exact Nat.lt_succ_self _

/-! ## A file without the table -/

/-- One blank line more. -/
theorem scanFrom_blank {nl : Text} (hnl : IsEnding nl) {ls : List Text} {tables : List TableHeader}
    (h : scanFrom .start ls = .ok ⟨none, ls.length, tables⟩) :
    scanFrom .start (ls ++ [nl]) = .ok ⟨none, (ls ++ [nl]).length, tables⟩ := by
  refine scanFrom_append.mpr ⟨_, h, scanFrom_cons.mpr ⟨_, scanLine_ending hnl _ _, ?_⟩⟩
  rw [List.length_append, List.length_singleton]
  rfl

theorem ended_blank {nl : Text} (hnl : IsEnding nl) {ls : List Text} (h : ∀ l ∈ ls, Ended (unit '\n') l) :
    ∀ l ∈ ls ++ [nl], Ended (unit '\n') l :=
  List.forall_mem_append.mpr ⟨h, List.forall_mem_singleton.mpr (ended_append (l := []) hnl List.not_mem_nil)⟩

/-- A file that ends with a line ending, or is empty, has no rest behind its last ended line. -/
theorem rest_eq_nil {front rest nl : Text} (hnl : IsEnding nl) (hrest : unit '\n' ∉ rest)
    (hends : ((front ++ rest).isEmpty || nl.isSuffixOf (front ++ rest)) = true) : rest = [] := by
  by_contra hne
  rcases Bool.or_eq_true_iff.mp hends with hempty | hsuffix
  · exact hne (List.append_eq_nil_iff.mp (List.isEmpty_iff.mp hempty)).2
  · obtain ⟨before, hbefore⟩ := List.isSuffixOf_iff_suffix.mp hsuffix
    have hlast : (front ++ rest).getLast? = some (unit '\n') := by
      rw [← hbefore]
      rcases hnl with rfl | rfl
      · exact List.getLast?_concat
      · rw [← List.singleton_append, ← List.append_assoc]
        exact List.getLast?_concat
    rw [List.getLast?_append_of_ne_nil _ hne] at hlast
    exact hrest (List.mem_of_getLast? hlast)

/-- The file up to its end, brought to a line ending. -/
theorem exists_prefixed {raw nl : Text} (hnl : IsEnding nl) {tables : List TableHeader}
    (hscan : scanTables (splitKeepEndings raw) = .ok tables) :
    ∃ ls, (∀ l ∈ ls, Ended (unit '\n') l) ∧
      (if raw.isEmpty || nl.isSuffixOf raw then raw else raw ++ nl) = ls.flatten ∧
      scanFrom .start ls = .ok ⟨none, ls.length, tables⟩ := by
  obtain ⟨i, hall⟩ := scanTables_eq_ok.mp hscan
  have hindex : i = (splitKeepEndings raw).length := by
    have := (scanFrom_ok hall).1
    rwa [show Scan.start.index = 0 from rfl, Nat.zero_add] at this
  subst hindex
  obtain ⟨ls, rest, hls, hrest, hraw, hsplit⟩ := split_eq (unit '\n') raw
  have hlines : splitKeepEndings raw = ls ++ if rest = [] then [] else [rest] := hsplit
  by_cases hnil : rest = []
  · rw [hnil, if_pos rfl, List.append_nil] at hlines
    rw [hnil, List.append_nil] at hraw
    rw [hlines] at hall
    split
    · exact ⟨ls, hls, hraw, hall⟩
    · exact ⟨ls ++ [nl], ended_blank hnl hls, by rw [hraw, List.flatten_append, List.flatten_singleton],
        scanFrom_blank hnl hall⟩
  · rw [if_neg hnil] at hlines
    rw [hlines] at hall
    rw [if_neg fun hends => hnil (rest_eq_nil hnl hrest (hraw ▸ hends))]
    refine ⟨ls ++ [rest ++ nl],
      List.forall_mem_append.mpr ⟨hls, List.forall_mem_singleton.mpr (ended_append hnl hrest)⟩, ?_, ?_⟩
    · rw [hraw, List.flatten_append, List.flatten_singleton, List.append_assoc]
    · obtain ⟨m, hm, hline⟩ := scanFrom_append.mp hall
      obtain ⟨m', hline, hend⟩ := scanFrom_cons.mp hline
      rw [← scanLine_append hnl hrest] at hline
      refine scanFrom_append.mpr ⟨m, hm, scanFrom_cons.mpr ⟨m', hline, ?_⟩⟩
      rw [hend, List.length_append, List.length_append]
      rfl

theorem ownedHeader_ending {nl : Text} (hnl : IsEnding nl) :
    headerOf (stripLineEnding (units "[" ++ ownedTable ++ units "]" ++ nl)) = .ok (some (ownedTable, false)) ∧
      updateTripleState (stripLineEnding (units "[" ++ ownedTable ++ units "]" ++ nl)) none = none ∧
      Ended (unit '\n') (units "[" ++ ownedTable ++ units "]" ++ nl) := by
  have hstrip : stripLineEnding (units "[" ++ ownedTable ++ units "]" ++ nl) =
      units "[" ++ ownedTable ++ units "]" := stripLineEnding_append_of_last hnl (by decide)
  rw [hstrip]
  exact ⟨by decide, by decide, ended_append hnl (by decide)⟩

/-- The lines of what is appended to: the file, and a separator that is one more line, or none. -/
theorem exists_appended {raw nl : Text} (hnl : IsEnding nl) {tables : List TableHeader}
    (hscan : scanTables (splitKeepEndings raw) = .ok tables) (desiredBody : List Text) :
    ∃ pre sep, (∀ l ∈ pre, Ended (unit '\n') l) ∧ scanFrom .start pre = .ok ⟨none, pre.length, tables⟩ ∧
      (∀ c ∈ sep, c = unit '\r' ∨ c = unit '\n') ∧ pre.flatten = raw ++ sep ∧
      appended raw ownedTable nl desiredBody =
        (pre ++ (units "[" ++ ownedTable ++ units "]" ++ nl) :: desiredBody).flatten := by
  obtain ⟨ls, hls, hprefixed, hstart⟩ := exists_prefixed hnl hscan
  have hunits : ∀ c ∈ nl, c = unit '\r' ∨ c = unit '\n' := by
    rcases hnl with rfl | rfl
    · exact forall_mem_of_all (by decide)
    · exact forall_mem_of_all (by decide)
  obtain ⟨sep, hsep, hraw⟩ : ∃ sep, (∀ c ∈ sep, c = unit '\r' ∨ c = unit '\n') ∧ ls.flatten = raw ++ sep := by
    rw [← hprefixed]
    split
    · exact ⟨[], fun _ hc => absurd hc List.not_mem_nil, (List.append_nil raw).symm⟩
    · exact ⟨nl, hunits, rfl⟩
  unfold appended
  dsimp only
  rw [hprefixed]
  split
  · refine ⟨ls, sep, hls, hstart, hsep, hraw, ?_⟩
    simp only [List.flatten_append, List.flatten_cons, List.append_nil, List.append_assoc]
  · refine ⟨ls ++ [nl], sep ++ nl, ended_blank hnl hls, scanFrom_blank hnl hstart,
      List.forall_mem_append.mpr ⟨hsep, hunits⟩, ?_, ?_⟩
    · rw [List.flatten_append, List.flatten_singleton, hraw, List.append_assoc]
    · simp only [List.flatten_append, List.flatten_cons, List.flatten_nil, List.append_nil, List.append_assoc]

/-- Appending the table. -/
theorem surgical_appended {raw nl : Text} {bodyLines : List Text} {tables : List TableHeader}
    (hB : Plain bodyLines) (hnl : IsEnding nl) (hscan : scanTables (splitKeepEndings raw) = .ok tables)
    (hpos : findOwned tables ownedTable = none) :
    Surgical raw bodyLines (appended raw ownedTable nl (bodyLines.map (· ++ nl))) ↔
      tripleAfter none bodyLines = none := by
  obtain ⟨pre, sep, hpre, hpre_scan, hsep, hraw, happended⟩ :=
    exists_appended hnl hscan (bodyLines.map (· ++ nl))
  obtain ⟨hheader, hquiet, hheaderEnded⟩ := ownedHeader_ending hnl
  have hsplit : splitKeepEndings (appended raw ownedTable nl (bodyLines.map (· ++ nl))) =
      pre ++ (units "[" ++ ownedTable ++ units "]" ++ nl) :: (bodyLines.map (· ++ nl) ++ []) := by
    unfold splitKeepEndings
    have hended := List.forall_mem_append.mpr ⟨hpre, List.forall_mem_cons.mpr ⟨hheaderEnded, hB.ended hnl⟩⟩
    rw [happended, ← List.append_nil (List.flatten _), split_append hended, List.append_nil]
    exact List.append_nil _
  have howned : OwnedAt (splitKeepEndings (appended raw ownedTable nl (bodyLines.map (· ++ nl)))) ownedTable pre
      (units "[" ++ ownedTable ++ units "]" ++ nl) (bodyLines.map (· ++ nl)) [] tables :=
    ⟨hsplit, hpre_scan, hpos, hheader, hB.headerless hnl (List.Subset.refl _) _⟩
  have hstate : tripleAfter none ((units "[" ++ ownedTable ++ units "]" ++ nl) :: bodyLines.map (· ++ nl)) =
      tripleAfter none bodyLines := by
    have hcons : ∀ l ls, tripleAfter none (l :: ls) =
        tripleAfter (updateTripleState (stripLineEnding l) none) ls := fun _ _ => rfl
    rw [hcons, hquiet, hB.tripleAfter hnl]
  have hscan' := howned.scan
  rw [hstate] at hscan'
  have hall : splitKeepEndings (appended raw ownedTable nl (bodyLines.map (· ++ nl))) =
      pre ++ (units "[" ++ ownedTable ++ units "]" ++ nl) :: bodyLines.map (· ++ nl) := by
    rw [hsplit, List.append_nil]
  constructor
  · intro hsurgical
    by_contra hopen
    exact not_surgical_open hB howned (hstate.trans_ne hopen) hsurgical
  · intro hclosed
    rw [hclosed] at hscan'
    refine surgical_of_owned hnl ?_ howned (scanTables_eq_ok.mpr ⟨_, by rw [hall]; exact hscan'⟩) (.inl rfl)
    unfold KeepsOutside regionOf
    rw [hscan]
    dsimp only
    rw [hpos]
    refine ⟨sep, nl ++ (bodyLines.map (· ++ nl)).flatten, hsep, ?_⟩
    rw [happended, List.flatten_append, List.flatten_cons, hraw]
    simp only [List.append_assoc]

/-! ## Every file -/

/-- A file that has the lines stays as it is. -/
theorem surgical_unchanged {raw hdr : Text} {bodyLines pre body rest : List Text}
    {tables before : List TableHeader} (hscan : scanTables (splitKeepEndings raw) = .ok tables)
    (h : Located (splitKeepEndings raw) ownedTable tables pre hdr body rest before)
    (hpos : findOwned tables ownedTable = some before.length) (hsame : bodyEquals body bodyLines = true) :
    Surgical raw bodyLines raw := by
  have hlines : split (unit '\n') raw = (pre ++ [hdr]) ++ (body ++ rest) := by
    rw [show split (unit '\n') raw = splitKeepEndings raw from rfl, h.lines_eq, List.append_assoc,
      List.singleton_append]
  have hread : readTomlTable raw ownedTable = ⟨true, body.flatten, false⟩ := by
    unfold readTomlTable
    simp only [hscan, hpos, h.region, h.toOwnedAt.slice]
  refine ⟨?_, ?_, ?_, ?_, ?_⟩
  · unfold KeepsOutside
    rw [regionOf_of_located hscan h hpos]
    refine ⟨body.flatten, ?_⟩
    rw [h.toOwnedAt.outside.1, h.toOwnedAt.outside.2, ← List.flatten_append, ← List.flatten_append,
      List.append_assoc (pre ++ [hdr]), ← hlines, flatten_split]
  · rw [hread]
  · rw [hread]
  · rw [hread]
    dsimp only
    rw [show splitKeepEndings body.flatten = body from split_flatten_infix hlines]
    exact hsame
  · rw [upsert_of_located bodyLines hscan h hpos, if_pos hsame]

/-- A file with the table: its header must end its line, and the lines leave no multi-line string open behind it. -/
theorem surgical_iff_of_located {raw hdr : Text} {bodyLines pre body rest : List Text}
    {tables before : List TableHeader} (hB : Plain bodyLines) (hscan : scanTables (splitKeepEndings raw) = .ok tables)
    (h : Located (splitKeepEndings raw) ownedTable tables pre hdr body rest before)
    (hpos : findOwned tables ownedTable = some before.length) :
    Surgical raw bodyLines (upsertTomlTable raw ownedTable bodyLines).text ↔ Writable raw bodyLines := by
  have hnl := dominantLineEnding_isEnding raw
  have hregion := regionOf_of_located hscan h hpos
  have hheader : (splitKeepEndings raw)[pre.length + 1 - 1]? = some hdr := by
    rw [Nat.add_sub_cancel, h.lines_eq, List.getElem?_append_right (Nat.le_refl _), Nat.sub_self]
    rfl
  unfold Writable
  rw [hregion, upsert_of_located bodyLines hscan h hpos]
  dsimp only
  rw [h.toOwnedAt.slice, hheader]
  by_cases hsame : bodyEquals body bodyLines = true
  · rw [if_pos hsame]
    exact ⟨fun _ => .inl hsame, fun _ => surgical_unchanged hscan h hpos hsame⟩
  · rw [if_neg hsame]
    dsimp only
    have hlines : split (unit '\n') raw = pre ++ hdr :: (body ++ rest) := h.lines_eq
    have hmem : hdr ∈ split (unit '\n') raw := by
      rw [hlines]
      exact List.mem_append_right _ List.mem_cons_self
    rcases ended_or_notMem hmem with hended | hnot
    · have hlast : hdr.getLast? = some (unit '\n') := by
        obtain ⟨content, -, rfl⟩ := hended
        exact List.getLast?_concat
      have hpre : ∀ l ∈ pre ++ [hdr], Ended (unit '\n') l := List.forall_mem_append.mpr
        ⟨ended_of_split hlines (List.cons_ne_nil _ _), List.forall_mem_singleton.mpr hended⟩
      rw [surgical_replaced hB hnl h hregion hpre]
      constructor
      · exact fun hclosed => .inr ⟨hdr, rfl, hlast, hclosed⟩
      · rintro (hbody | ⟨_, hhdr, -, hclosed⟩)
        · exact absurd hbody hsame
        · obtain rfl := Option.some.inj hhdr
          exact hclosed
    · constructor
      · exact fun hsurgical => absurd hsurgical (not_surgical_glued hB hnl h hnot)
      · rintro (hbody | ⟨_, hhdr, hlast, -⟩)
        · exact absurd hbody hsame
        · obtain rfl := Option.some.inj hhdr
          exact absurd (List.mem_of_getLast? hlast) hnot

/-- **The upsert of plain lines is surgical exactly if they are writable.** -/
theorem surgical_iff_writable {raw : Text} {bodyLines : List Text} (hB : Plain bodyLines)
    (hraw : (readTomlTable raw ownedTable).malformed = false) :
    Surgical raw bodyLines (upsertTomlTable raw ownedTable bodyLines).text ↔ Writable raw bodyLines := by
  obtain ⟨tables, hscan⟩ := wellFormed_iff.mp hraw
  cases hpos : findOwned tables ownedTable with
  | none =>
    have hregion : regionOf raw = none := by
      unfold regionOf
      rw [hscan]
      dsimp only
      rw [hpos]
      rfl
    have hout : (upsertTomlTable raw ownedTable bodyLines).text =
        appended raw ownedTable (dominantLineEnding raw) (bodyLines.map (· ++ dominantLineEnding raw)) := by
      unfold upsertTomlTable
      simp only [hscan, hpos]
    unfold Writable
    rw [hout, hregion]
    exact surgical_appended hB (dominantLineEnding_isEnding raw) hscan hpos
  | some pos =>
    obtain ⟨pre, hdr, body, rest, before, rfl, h⟩ := exists_located hscan hpos
    exact surgical_iff_of_located hB hscan h hpos

end Unimatrix.CodexInstall
