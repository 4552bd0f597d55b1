import Unimatrix.Install.CodexToml

/-!
# What the line scanner sees

Facts about `scanTables` that hold of every text.

* A carriage return at the end of a line says nothing to the scanner (`updateTripleState_cr`, `headerOf_cr`), and what
  follows the bracket that closes a header neither (`headerOf_append`).
* A line that closes a multi-line string has a quote in it (`quote_of_closes`).
* Of a scan from the middle on, `scanFrom_ok` says where it ends: at which index, in which state, and that it keeps the
  tables it was given and adds only later ones.
* **`header_at`** and **`region_of_scan`**: a table of the result is the header of a line, and the region of the owned one
  begins with the lines behind it that are no headers.
-/

namespace Unimatrix.CodexInstall

open Install

/-! ## Prefixes -/

theorem isPrefixOf_concat {p : Text} {x : UInt16} (hx : x ∉ p) (l : Text) :
    p.isPrefixOf (l ++ [x]) = p.isPrefixOf l := by
  induction p generalizing l with
  | nil => rfl
  | cons a p ih =>
    have ha : a ≠ x := fun h => hx (h ▸ List.mem_cons_self)
    cases l with
    | nil =>
      rw [List.nil_append, List.isPrefixOf_cons_cons]
      simp [ha]
    | cons b l =>
      rw [List.cons_append, List.isPrefixOf_cons_cons, List.isPrefixOf_cons_cons,
        ih fun h => hx (List.mem_cons_of_mem _ h)]

theorem isPrefixOf_append {p l : Text} (h : p.length ≤ l.length) (t : Text) :
    p.isPrefixOf (l ++ t) = p.isPrefixOf l := by
  rw [Bool.eq_iff_iff, List.isPrefixOf_iff_prefix, List.isPrefixOf_iff_prefix]
  exact ⟨fun hp => List.prefix_of_prefix_length_le hp (List.prefix_append l t) h,
    fun hp => hp.trans (List.prefix_append l t)⟩

theorem indexOf_concat {p : Text} {x : UInt16} (hx : x ∉ p) (hp : p ≠ []) (s : Text) :
    indexOf p (s ++ [x]) = indexOf p s := by
  have hnil : p.isEmpty = false := List.isEmpty_eq_false_iff.mpr hp
  induction s with
  | nil =>
    have hprefix : p.isPrefixOf ([] ++ [x]) = false := by
      rw [isPrefixOf_concat hx]
      cases p with
      | nil => exact absurd rfl hp
      | cons a p => rfl
    rw [List.nil_append] at hprefix ⊢
    simp [indexOf, hprefix, hnil]
  | cons c s ih =>
    have hprefix := isPrefixOf_concat hx (c :: s)
    rw [List.cons_append] at hprefix ⊢
    rw [indexOf, indexOf, hprefix, ih]

/-- What is found lies inside the text. -/
theorem indexOf_le {p s : Text} {k : Nat} (h : indexOf p s = some k) : k + p.length ≤ s.length := by
  induction s generalizing k with
  | nil =>
    unfold indexOf at h
    split at h
    · rename_i hp
      obtain rfl := Option.some.inj h
      rw [List.isEmpty_iff.mp hp]
      rfl
    · cases h
  | cons c s ih =>
    unfold indexOf at h
    split at h
    · rename_i hp
      obtain rfl := Option.some.inj h
      rw [Nat.zero_add]
      exact (List.isPrefixOf_iff_prefix.mp hp).length_le
    · obtain ⟨j, hj, rfl⟩ := Option.map_eq_some_iff.mp h
      have := ih hj
      rw [List.length_cons]
      omega

theorem indexOf_append {p s : Text} {k : Nat} (h : indexOf p s = some k) (t : Text) :
    indexOf p (s ++ t) = some k := by
  induction s generalizing k with
  | nil =>
    have hle := indexOf_le h
    have hp : p = [] := List.eq_nil_of_length_eq_zero (by rw [List.length_nil] at hle; omega)
    have hk : k = 0 := by rw [List.length_nil] at hle; omega
    rw [hp, hk, List.nil_append]
    cases t with
    | nil => rfl
    | cons c t => rfl
  | cons c s ih =>
    have hle := indexOf_le h
    unfold indexOf at h
    rw [List.cons_append, indexOf, ← List.cons_append, isPrefixOf_append (by omega)]
    split at h
    · rename_i hp
      rw [if_pos hp, h]
    · rename_i hp
      obtain ⟨j, hj, rfl⟩ := Option.map_eq_some_iff.mp h
      rw [if_neg hp, ih hj]
      rfl

/-! ## One line -/

/-- A unit that is in no delimiter and opens no comment, at the end of a line. -/
theorem updateTripleFrom_concat {x : UInt16} (hx : ∀ triple : Triple, x ∉ triple.delimiter)
    (hcomment : x ≠ unit '#') (skip : Nat) (inTriple : Option Triple) (content : Text) :
    updateTripleFrom skip inTriple (content ++ [x]) = updateTripleFrom skip inTriple content := by
  have hnot : ∀ triple : Triple, triple.delimiter.isPrefixOf [x] = false := fun triple => by
    have h := isPrefixOf_concat (hx triple) []
    rw [List.nil_append] at h
    rw [h]
    cases triple <;> rfl
  induction content generalizing skip inTriple with
  | nil =>
    rw [List.nil_append]
    cases skip with
    | succ skip => rfl
    | zero =>
      cases inTriple with
      | none => simp [updateTripleFrom, hnot, hcomment]
      | some triple => simp [updateTripleFrom, hnot]
  | cons c content ih =>
    have hsame : ∀ triple : Triple, triple.delimiter.isPrefixOf (c :: (content ++ [x])) =
        triple.delimiter.isPrefixOf (c :: content) := fun triple =>
      isPrefixOf_concat (hx triple) (c :: content)
    rw [List.cons_append]
    cases skip with
    | succ skip => exact ih skip inTriple
    | zero =>
      cases inTriple with
      | none => rw [updateTripleFrom, updateTripleFrom, hsame, hsame, ih, ih, ih]
      | some triple => rw [updateTripleFrom, updateTripleFrom, hsame, ih, ih]

theorem updateTripleState_cr (content : Text) (state : Option Triple) :
    updateTripleState (content ++ [unit '\r']) state = updateTripleState content state :=
  updateTripleFrom_concat (fun triple => by cases triple <;> decide) (by decide) 0 state content

/-- A text that closes a multi-line string has a quote. -/
theorem updateTripleFrom_quote {skip : Nat} {triple : Triple} {content : Text}
    (h : updateTripleFrom skip (some triple) content = none) :
    unit '"' ∈ content ∨ unit '\'' ∈ content := by
  induction content generalizing skip with
  | nil =>
    cases skip <;> cases h
  | cons c content ih =>
    cases skip with
    | succ skip => exact (ih h).imp (List.mem_cons_of_mem c) (List.mem_cons_of_mem c)
    | zero =>
      rw [updateTripleFrom] at h
      split at h
      · rename_i hprefix
        have hsub := (List.isPrefixOf_iff_prefix.mp hprefix).subset
        cases triple with
        | basic => exact .inl (hsub (by decide))
        | literal => exact .inr (hsub (by decide))
      · exact (ih h).imp (List.mem_cons_of_mem c) (List.mem_cons_of_mem c)

theorem headerOf_cr (content : Text) : headerOf (content ++ [unit '\r']) = headerOf content := by
  have hdouble : unit '\r' ∉ units "[[" := by decide
  have hsingle : unit '\r' ∉ units "[" := by decide
  unfold headerOf
  dsimp only
  rw [List.dropWhile_append]
  split
  · rename_i hnil
    rw [List.isEmpty_iff.mp hnil]
    decide
  · have hslice : ∀ {p : Text} {k : Nat}, indexOf p (content.dropWhile isBlank) = some k → ∀ n : Nat,
        ((content.dropWhile isBlank ++ [unit '\r']).take k).drop n =
          ((content.dropWhile isBlank).take k).drop n := fun h n => by
      rw [List.take_append_of_le_length (by have := indexOf_le h; omega)]
    rw [isPrefixOf_concat hdouble, isPrefixOf_concat hsingle,
      indexOf_concat (by decide) (by decide), indexOf_concat (by decide) (by decide)]
    split
    · cases hclose : indexOf (units "]]") (content.dropWhile isBlank) with
      | none => rfl
      | some close => simp only [hslice hclose]
    · split
      · cases hclose : indexOf (units "]") (content.dropWhile isBlank) with
        | none => rfl
        | some close => simp only [hslice hclose]
      · rfl

/-- A header of one bracket has at least two units, so that its second is not a bracket. -/
theorem two_le_of_closed {trimmed : Text} {close : Nat} (hsingle : (units "[").isPrefixOf trimmed = true)
    (hclose : indexOf (units "]") trimmed = some close) : (units "[[").length ≤ trimmed.length := by
  have hle := indexOf_le hclose
  have hpos : close ≠ 0 := by
    rintro rfl
    obtain ⟨rest, rfl⟩ := List.isPrefixOf_iff_prefix.mp hsingle
    exact absurd hclose (by cases rest <;> simp [indexOf, units, unit])
  have hone : (units "]").length = 1 := rfl
  have htwo : (units "[[").length = 2 := rfl
  omega

/-- A header is one whatever follows it on its line. -/
theorem headerOf_append {content : Text} {header : Text × Bool} (h : headerOf content = .ok (some header))
    (more : Text) : headerOf (content ++ more) = .ok (some header) := by
  unfold headerOf at h ⊢
  dsimp only at h ⊢
  have hne : ¬ (content.dropWhile isBlank).isEmpty = true := by
    intro hnil
    rw [List.isEmpty_iff.mp hnil] at h
    have hnone : (Except.ok none : Except String (Option (Text × Bool))) = .ok (some header) := h
    cases hnone
  rw [List.dropWhile_append, if_neg hne]
  generalize content.dropWhile isBlank = trimmed at h hne ⊢
  have hslice : ∀ {p : Text} {k : Nat}, indexOf p trimmed = some k → ∀ n : Nat,
      ((trimmed ++ more).take k).drop n = (trimmed.take k).drop n := fun h n => by
    rw [List.take_append_of_le_length (by have := indexOf_le h; omega)]
  split at h
  · rename_i hdouble
    have hdouble' : (units "[[").isPrefixOf (trimmed ++ more) = true :=
      List.isPrefixOf_iff_prefix.mpr
        ((List.isPrefixOf_iff_prefix.mp hdouble).trans (List.prefix_append _ _))
    rw [if_pos hdouble']
    cases hclose : indexOf (units "]]") trimmed with
    | none =>
      rw [hclose] at h
      cases h
    | some close =>
      rw [hclose] at h
      simp only [indexOf_append hclose, hslice hclose]
      exact h
  · rename_i hdouble
    split at h
    · rename_i hsingle
      cases hclose : indexOf (units "]") trimmed with
      | none =>
        rw [hclose] at h
        cases h
      | some close =>
        rw [hclose] at h
        have hlen := two_le_of_closed hsingle hclose
        have hlen' : (units "[").length ≤ trimmed.length := Nat.le_of_succ_le hlen
        have hdouble' : (units "[[").isPrefixOf (trimmed ++ more) = (units "[[").isPrefixOf trimmed :=
          isPrefixOf_append hlen more
        have hsingle' : (units "[").isPrefixOf (trimmed ++ more) = (units "[").isPrefixOf trimmed :=
          isPrefixOf_append hlen' more
        rw [hdouble', if_neg hdouble, hsingle', if_pos hsingle]
        simp only [indexOf_append hclose, hslice hclose]
        exact h
    · cases h

/-- The scanner before the first line. -/
def Scan.start : Scan := ⟨none, 0, []⟩

/-- What a line does: it is a header, outside a string, or leaves the tables alone. -/
theorem scanLine_ok {s s' : Scan} {line : Text} (h : scanLine s line = .ok s') :
    s'.index = s.index + 1 ∧ s'.inTriple = updateTripleState (stripLineEnding line) s.inTriple ∧
      (s'.tables = s.tables ∨ s.inTriple = none ∧ ∃ content isArray,
        headerOf (stripLineEnding line) = .ok (some (content, isArray)) ∧
          s'.tables = s.tables ++ [⟨s.index, content, isArray⟩]) := by
  unfold scanLine at h
  dsimp only at h
  split at h
  · cases h
    exact ⟨rfl, rfl, .inl rfl⟩
  · rename_i hout
    split at h
    · cases h
    · cases h
      exact ⟨rfl, rfl, .inl rfl⟩
    · rename_i content isArray hheader
      cases h
      exact ⟨rfl, rfl, .inr ⟨by simpa using hout, content, isArray, hheader, rfl⟩⟩

/-- A line inside a string, or one that is no header. -/
theorem scanLine_skip {inTriple : Option Triple} {line : Text}
    (h : inTriple ≠ none ∨ headerOf (stripLineEnding line) = .ok none) (i : Nat) (tables : List TableHeader) :
    scanLine ⟨inTriple, i, tables⟩ line =
      .ok ⟨updateTripleState (stripLineEnding line) inTriple, i + 1, tables⟩ := by
  unfold scanLine
  dsimp only
  cases inTriple with
  | some triple => rw [if_pos Option.isSome_some]
  | none =>
    rw [h.resolve_left fun hne => hne rfl]
    rfl

theorem scanLine_header {line content : Text} {isArray : Bool}
    (h : headerOf (stripLineEnding line) = .ok (some (content, isArray))) (i : Nat)
    (tables : List TableHeader) : scanLine ⟨none, i, tables⟩ line =
      .ok ⟨updateTripleState (stripLineEnding line) none, i + 1, tables ++ [⟨i, content, isArray⟩]⟩ := by
  unfold scanLine
  dsimp only
  rw [h]
  rfl

/-- Whether a line is read does not depend on where it is and on what came before it. -/
theorem scanLine_elsewhere {s s' : Scan} {line : Text} (h : scanLine s line = .ok s') (i : Nat)
    (tables : List TableHeader) :
    ∃ tables', scanLine ⟨s.inTriple, i, tables⟩ line = .ok ⟨s'.inTriple, i + 1, tables'⟩ := by
  unfold scanLine at h ⊢
  dsimp only at h ⊢
  split at h
  · rename_i hin
    cases h
    exact ⟨tables, if_pos hin⟩
  · rename_i hout
    rw [if_neg hout]
    split at h
    · cases h
    · cases h
      exact ⟨tables, rfl⟩
    · cases h
      exact ⟨_, rfl⟩

/-! ## Several lines -/

/-- The state behind some lines. -/
def tripleAfter (inTriple : Option Triple) (lines : List Text) : Option Triple :=
  lines.foldl (fun state line => updateTripleState (stripLineEnding line) state) inTriple

theorem tripleAfter_append (inTriple : Option Triple) (a b : List Text) :
    tripleAfter inTriple (a ++ b) = tripleAfter (tripleAfter inTriple a) b := List.foldl_append

theorem scanFrom_cons {s s' : Scan} {line : Text} {lines : List Text} :
    scanFrom s (line :: lines) = .ok s' ↔ ∃ m, scanLine s line = .ok m ∧ scanFrom m lines = .ok s' := by
  unfold scanFrom
  rw [List.foldlM_cons]
  cases scanLine s line with
  | error e =>
    constructor
    · intro h
      cases h
    · rintro ⟨m, h, -⟩
      cases h
  | ok m =>
    constructor
    · exact fun h => ⟨m, rfl, h⟩
    · rintro ⟨n, hn, h⟩
      cases hn
      exact h

theorem scanFrom_append {s s' : Scan} {a b : List Text} :
    scanFrom s (a ++ b) = .ok s' ↔ ∃ m, scanFrom s a = .ok m ∧ scanFrom m b = .ok s' := by
  induction a generalizing s with
  | nil =>
    constructor
    · exact fun h => ⟨s, rfl, h⟩
    · rintro ⟨m, hm, h⟩
      cases hm
      exact h
  | cons line a ih =>
    rw [List.cons_append, scanFrom_cons]
    simp only [ih, scanFrom_cons]
    constructor
    · rintro ⟨m, hline, n, ha, hb⟩
      exact ⟨n, ⟨m, hline, ha⟩, hb⟩
    · rintro ⟨n, ⟨m, hline, ha⟩, hb⟩
      exact ⟨m, hline, n, ha, hb⟩

/-- Where a scan ends, and that it only adds tables, each behind the one before. -/
theorem scanFrom_ok {s s' : Scan} {lines : List Text} (h : scanFrom s lines = .ok s') :
    s'.index = s.index + lines.length ∧ s'.inTriple = tripleAfter s.inTriple lines ∧
      ∃ added, s'.tables = s.tables ++ added ∧ ∀ t ∈ added, s.index ≤ t.headerIndex := by
  induction lines generalizing s with
  | nil =>
    cases h
    exact ⟨rfl, rfl, [], (List.append_nil _).symm, fun _ ht => absurd ht List.not_mem_nil⟩
  | cons line lines ih =>
    obtain ⟨m, hline, hlines⟩ := scanFrom_cons.mp h
    obtain ⟨hindex, htriple, htables⟩ := scanLine_ok hline
    obtain ⟨hindex', htriple', added, hadded, hlater⟩ := ih hlines
    refine ⟨?_, ?_, ?_⟩
    · rw [hindex', hindex, List.length_cons]
      omega
    · rw [htriple', htriple]
      rfl
    · rcases htables with hsame | ⟨-, content, isArray, -, hnew⟩
      · refine ⟨added, by rw [hadded, hsame], fun t ht => ?_⟩
        have := hlater t ht
        omega
      · refine ⟨⟨s.index, content, isArray⟩ :: added, ?_, fun t ht => ?_⟩
        · rw [hadded, hnew, List.append_assoc, List.singleton_append]
        · rcases List.mem_cons.mp ht with rfl | ht
          · exact Nat.le_refl _
          · have := hlater t ht
            omega

/-- Whether lines are read does not depend on where they are and on what came before them. -/
theorem scanFrom_elsewhere {s s' : Scan} {lines : List Text} (h : scanFrom s lines = .ok s') (i : Nat)
    (tables : List TableHeader) :
    ∃ s'', scanFrom ⟨s.inTriple, i, tables⟩ lines = .ok s'' ∧ s''.inTriple = s'.inTriple := by
  induction lines generalizing s i tables with
  | nil =>
    cases h
    exact ⟨_, rfl, rfl⟩
  | cons line lines ih =>
    obtain ⟨m, hline, hlines⟩ := scanFrom_cons.mp h
    obtain ⟨tables', hline'⟩ := scanLine_elsewhere hline i tables
    obtain ⟨s'', hs'', hstate⟩ := ih hlines (i + 1) tables'
    exact ⟨s'', scanFrom_cons.mpr ⟨_, hline', hs''⟩, hstate⟩

/-! ## Lines without a header -/

/-- None of the lines is a header when they are read from the state `inTriple` on. -/
def Headerless (inTriple : Option Triple) (lines : List Text) : Prop :=
  ∀ i tables, scanFrom ⟨inTriple, i, tables⟩ lines =
    .ok ⟨tripleAfter inTriple lines, i + lines.length, tables⟩

theorem headerless_nil (inTriple : Option Triple) : Headerless inTriple [] := fun _ _ => rfl

theorem Headerless.cons {inTriple : Option Triple} {line : Text} {lines : List Text}
    (h : inTriple ≠ none ∨ headerOf (stripLineEnding line) = .ok none)
    (hlines : Headerless (updateTripleState (stripLineEnding line) inTriple) lines) :
    Headerless inTriple (line :: lines) := by
  intro i tables
  refine scanFrom_cons.mpr ⟨_, scanLine_skip h i tables, ?_⟩
  rw [hlines, List.length_cons, show i + 1 + lines.length = i + (lines.length + 1) by omega]
  rfl

theorem headerless_of_headerOf {lines : List Text}
    (h : ∀ line ∈ lines, headerOf (stripLineEnding line) = .ok none) (inTriple : Option Triple) :
    Headerless inTriple lines := by
  induction lines generalizing inTriple with
  | nil => exact headerless_nil inTriple
  | cons line lines ih =>
    exact Headerless.cons (.inr (h line List.mem_cons_self))
      (ih (fun l hl => h l (List.mem_cons_of_mem _ hl)) _)

theorem Headerless.append {inTriple : Option Triple} {a b : List Text} (ha : Headerless inTriple a)
    (hb : Headerless (tripleAfter inTriple a) b) : Headerless inTriple (a ++ b) := by
  intro i tables
  refine scanFrom_append.mpr ⟨_, ha i tables, ?_⟩
  rw [hb, tripleAfter_append, List.length_append, Nat.add_assoc]

/-- A scan that added no table met no header. -/
theorem headerless_of_tables {s s' : Scan} {lines : List Text} (h : scanFrom s lines = .ok s')
    (hsame : s'.tables = s.tables) : Headerless s.inTriple lines := by
  induction lines generalizing s with
  | nil => exact headerless_nil s.inTriple
  | cons line lines ih =>
    obtain ⟨m, hline, hlines⟩ := scanFrom_cons.mp h
    obtain ⟨-, htriple, htables⟩ := scanLine_ok hline
    obtain ⟨-, -, added, hadded, -⟩ := scanFrom_ok hlines
    have hkept : m.tables = s.tables := by
      rcases htables with hkept | ⟨-, content, isArray, -, hnew⟩
      · exact hkept
      · have hlen := congrArg List.length (hadded.symm.trans hsame)
        rw [hnew, List.length_append, List.length_append, List.length_singleton] at hlen
        omega
    have hrest := ih hlines (hsame.trans hkept.symm)
    rw [htriple] at hrest
    refine Headerless.cons ?_ hrest
    by_cases hout : s.inTriple = none
    · right
      unfold scanLine at hline
      dsimp only at hline
      rw [hout, if_neg (by simp)] at hline
      split at hline
      · cases hline
      · rename_i hnone
        exact hnone
      · cases hline
        have hlen := congrArg List.length hkept
        rw [List.length_append, List.length_singleton] at hlen
        omega
    · exact .inl hout

/-- A string that is open and gets closed is closed on a line with a quote, and up to there no line is a header. -/
theorem closing_line {triple : Triple} {i : Nat} {tables : List TableHeader} {s : Scan} {lines : List Text}
    (h : scanFrom ⟨some triple, i, tables⟩ lines = .ok s) (hclosed : s.inTriple = none) :
    ∃ a c b, lines = a ++ c :: b ∧ Headerless (some triple) (a ++ [c]) ∧
      (unit '"' ∈ stripLineEnding c ∨ unit '\'' ∈ stripLineEnding c) := by
  induction lines generalizing triple i with
  | nil =>
    cases h
    cases hclosed
  | cons line lines ih =>
    obtain ⟨m, hline, hlines⟩ := scanFrom_cons.mp h
    have hin : (some triple : Option Triple) ≠ none := Option.some_ne_none triple
    rw [scanLine_skip (.inl hin)] at hline
    cases hline
    cases hstate : updateTripleState (stripLineEnding line) (some triple) with
    | none =>
      exact ⟨[], line, lines, rfl, Headerless.cons (.inl hin) (headerless_nil _),
        updateTripleFrom_quote hstate⟩
    | some triple' =>
      rw [hstate] at hlines
      obtain ⟨a, c, b, rfl, hquiet, hquote⟩ := ih hlines
      refine ⟨line :: a, c, b, rfl, Headerless.cons (.inl hin) ?_, hquote⟩
      rw [hstate]
      exact hquiet

/-! ## Tables and lines -/

/-- **A table of the result is the header of a line**: the lines before it have the tables before it. -/
theorem header_at {lines : List Text} {s : Scan} (h : scanFrom .start lines = .ok s)
    {before after : List TableHeader} {t : TableHeader} (ht : s.tables = before ++ t :: after) :
    ∃ pre hdr rest, lines = pre ++ hdr :: rest ∧ pre.length = t.headerIndex ∧
      scanFrom .start pre = .ok ⟨none, pre.length, before⟩ ∧
      headerOf (stripLineEnding hdr) = .ok (some (t.bracketContent, t.isArrayOfTables)) := by
  induction lines using List.reverseRecOn generalizing s after with
  | nil =>
    cases h
    exact absurd ht (by simp [Scan.start])
  | append_singleton lines line ih =>
    obtain ⟨m, hlines, hline⟩ := scanFrom_append.mp h
    obtain ⟨m', hline, hnil⟩ := scanFrom_cons.mp hline
    cases hnil
    obtain ⟨-, -, htables⟩ := scanLine_ok hline
    rcases htables with hsame | ⟨hout, content, isArray, hheader, hnew⟩
    · obtain ⟨pre, hdr, rest, rfl, hpre⟩ := ih hlines (hsame.symm.trans ht)
      exact ⟨pre, hdr, rest ++ [line], by rw [List.append_assoc, List.cons_append], hpre⟩
    · rw [hnew] at ht
      cases after using List.reverseRecOn with
      | nil =>
        obtain ⟨hbefore, hlast⟩ := List.append_inj' ht rfl
        obtain ⟨hindex, -, -⟩ := scanFrom_ok hlines
        obtain rfl := (List.cons.inj hlast).1
        rw [show Scan.start.index = 0 from rfl, Nat.zero_add] at hindex
        refine ⟨lines, line, [], rfl, hindex.symm, ?_, hheader⟩
        rw [hlines, ← hbefore, ← hindex, ← hout]
      | append_singleton after last =>
        rw [← List.cons_append, ← List.append_assoc] at ht
        obtain ⟨hbefore, -⟩ := List.append_inj' ht rfl
        obtain ⟨pre, hdr, rest, rfl, hpre⟩ := ih hlines hbefore
        exact ⟨pre, hdr, rest ++ [line], by rw [List.append_assoc, List.cons_append], hpre⟩

theorem scanTables_eq_ok {lines : List Text} {tables : List TableHeader} :
    scanTables lines = .ok tables ↔ ∃ i, scanFrom .start lines = .ok ⟨none, i, tables⟩ := by
  unfold scanTables
  rw [show (⟨none, 0, []⟩ : Scan) = .start from rfl]
  cases hscan : scanFrom .start lines with
  | error e =>
    constructor
    · intro h
      cases h
    · rintro ⟨i, h⟩
      cases h
  | ok s =>
    obtain ⟨inTriple, i, tables'⟩ := s
    cases inTriple with
    | none =>
      constructor
      · intro h
        cases h
        exact ⟨i, rfl⟩
      · rintro ⟨j, h⟩
        cases h
        rfl
    | some triple =>
      constructor
      · intro h
        cases h
      · rintro ⟨j, h⟩
        cases h

/-- Behind the tables before it, a table of this path is the one that is found. -/
theorem findOwned_append {before after : List TableHeader} {path : Text} {i : Nat}
    (h : findOwned before path = none) :
    findOwned (before ++ ⟨i, path, false⟩ :: after) path = some before.length := by
  unfold findOwned at h ⊢
  rw [List.findIdx?_append, h, Option.none_or, List.findIdx?_cons]
  simp

/-- The table that is found is the first one of its path. -/
theorem findOwned_eq_some {tables : List TableHeader} {path : Text} {pos : Nat}
    (h : findOwned tables path = some pos) :
    ∃ before i after, tables = before ++ ⟨i, path, false⟩ :: after ∧ before.length = pos ∧
      findOwned before path = none := by
  obtain ⟨hlt, howned, hfirst⟩ := List.findIdx?_eq_some_iff_getElem.mp h
  obtain ⟨harray, rfl⟩ : tables[pos].isArrayOfTables = false ∧ tables[pos].bracketContent = path := by
    simpa using howned
  have hlength : (tables.take pos).length = pos := by
    rw [List.length_take]
    omega
  refine ⟨tables.take pos, tables[pos].headerIndex, tables.drop (pos + 1), ?_, hlength, ?_⟩
  · rw [← harray, List.getElem_cons_drop, List.take_append_drop]
  · unfold findOwned
    rw [List.findIdx?_eq_none_iff]
    intro t hmem
    obtain ⟨j, hj, rfl⟩ := List.mem_iff_getElem.mp hmem
    rw [hlength] at hj
    rw [List.getElem_take]
    simpa using hfirst j hj

/-- The region goes up to the next header, or to the end. -/
theorem ownedRegion_append (before after : List TableHeader) (t : TableHeader) (n : Nat) :
    ownedRegion (before ++ t :: after) before.length n =
      (t.headerIndex + 1, (after.head?.map TableHeader.headerIndex).getD n) := by
  unfold ownedRegion
  rw [List.getElem?_append_right (Nat.le_refl _), List.getElem?_append_right (Nat.le_add_right _ 1),
    Nat.sub_self, Nat.add_sub_cancel_left, List.getElem?_cons_zero, List.getElem?_cons_succ,
    List.head?_eq_getElem?]
  rfl

/-- The lines between two headers, of which the second has more tables before it. -/
theorem exists_between {pre pre' rest rest' : List Text} {hdr hdr' : Text} {before before' : List TableHeader}
    (hlines : pre ++ hdr :: rest = pre' ++ hdr' :: rest')
    (hpre : scanFrom .start pre = .ok ⟨none, pre.length, before⟩)
    (hpre' : scanFrom .start pre' = .ok ⟨none, pre'.length, before'⟩) (hlt : before.length < before'.length) :
    ∃ body, pre' = pre ++ hdr :: body ∧ rest = body ++ hdr' :: rest' := by
  rcases List.append_eq_append_iff.mp hlines with ⟨c, hc, hcons⟩ | ⟨c, hc, -⟩
  · cases c with
    | nil =>
      rw [hc, List.append_nil, hpre] at hpre'
      have hsame : before = before' := congrArg Scan.tables (Except.ok.inj hpre')
      rw [hsame] at hlt
      exact absurd hlt (Nat.lt_irrefl _)
    | cons x body =>
      obtain ⟨rfl, hrest⟩ := List.cons.inj hcons
      exact ⟨body, hc, hrest⟩
  · -- the scanner only adds tables, so the second header does not come first
    rw [hc] at hpre
    obtain ⟨m, hm, hmore⟩ := scanFrom_append.mp hpre
    rw [hpre'] at hm
    cases hm
    obtain ⟨-, -, added, hadded, -⟩ := scanFrom_ok hmore
    dsimp only at hadded
    rw [hadded, List.length_append] at hlt
    omega

/-- The lines of an owned header, cut at it: what is in front of it, and the lines `body` behind it of which none is a
header. -/
structure OwnedAt (lines : List Text) (path : Text) (pre : List Text) (hdr : Text) (body rest : List Text)
    (before : List TableHeader) : Prop where
  lines_eq : lines = pre ++ hdr :: (body ++ rest)
  pre_scan : scanFrom .start pre = .ok ⟨none, pre.length, before⟩
  first : findOwned before path = none
  header : headerOf (stripLineEnding hdr) = .ok (some (path, false))
  headerless : Headerless (updateTripleState (stripLineEnding hdr) none) body

/-- The scanner behind the lines `body`. -/
theorem OwnedAt.scan {lines pre body rest : List Text} {path hdr : Text} {before : List TableHeader}
    (h : OwnedAt lines path pre hdr body rest before) :
    scanFrom .start (pre ++ hdr :: body) = .ok ⟨tripleAfter none (hdr :: body),
      pre.length + 1 + body.length, before ++ [⟨pre.length, path, false⟩]⟩ := by
  refine scanFrom_append.mpr ⟨_, h.pre_scan, scanFrom_cons.mpr ⟨_, scanLine_header h.header _ _, ?_⟩⟩
  exact h.headerless _ _

/-- The tables of the file: those before the owned one, and those behind the lines `body`, of which the first may be the
header that follows. -/
theorem OwnedAt.tables_eq {lines pre body rest : List Text} {path hdr : Text} {before tables : List TableHeader}
    (h : OwnedAt lines path pre hdr body rest before) (hscan : scanTables lines = .ok tables) :
    ∃ added, tables = before ++ ⟨pre.length, path, false⟩ :: added ∧
      (∀ t ∈ added, pre.length + 1 + body.length ≤ t.headerIndex) ∧
      (tripleAfter none (hdr :: body) = none → ∀ next after header, rest = next :: after →
        headerOf (stripLineEnding next) = .ok (some header) →
        added.head?.map TableHeader.headerIndex = some (pre.length + 1 + body.length)) := by
  obtain ⟨i, hall⟩ := scanTables_eq_ok.mp hscan
  have hlines := h.lines_eq
  rw [← List.cons_append, ← List.append_assoc] at hlines
  rw [hlines] at hall
  obtain ⟨m, hbody, hrest⟩ := scanFrom_append.mp hall
  rw [h.scan] at hbody
  cases hbody
  obtain ⟨-, -, added, hadded, hlater⟩ := scanFrom_ok hrest
  dsimp only at hadded hlater
  rw [List.append_assoc, List.singleton_append] at hadded
  refine ⟨added, hadded, hlater, ?_⟩
  rintro hclosed next after ⟨content, isArray⟩ rfl hnext
  rw [hclosed] at hrest
  obtain ⟨m, hline, hafter⟩ := scanFrom_cons.mp hrest
  rw [scanLine_header hnext] at hline
  cases hline
  obtain ⟨-, -, others, hothers, -⟩ := scanFrom_ok hafter
  dsimp only at hothers
  rw [hadded, List.append_assoc, List.append_assoc] at hothers
  have htail := (List.cons.inj (List.append_cancel_left hothers)).2
  rw [htail]
  rfl

/-- **The region of the owned table** begins behind its header, and has at least the lines `body`: no more, if a header
follows them or nothing. -/
theorem OwnedAt.region {lines pre body rest : List Text} {path hdr : Text} {before tables : List TableHeader}
    (h : OwnedAt lines path pre hdr body rest before) (hscan : scanTables lines = .ok tables) :
    findOwned tables path = some before.length ∧
      ∃ more, more <+: rest ∧
        slice lines (ownedRegion tables before.length lines.length) = body ++ more ∧
        ((rest = [] ∨ tripleAfter none (hdr :: body) = none ∧ ∃ next after header, rest = next :: after ∧
          headerOf (stripLineEnding next) = .ok (some header)) → more = []) := by
  obtain ⟨added, hadded, hlater, hnext⟩ := h.tables_eq hscan
  refine ⟨hadded ▸ findOwned_append h.first, ?_⟩
  have hregion : ownedRegion tables before.length lines.length =
      (pre.length + 1, (added.head?.map TableHeader.headerIndex).getD lines.length) := by
    rw [hadded, ownedRegion_append]
  have hlength : lines.length = pre.length + 1 + body.length + rest.length := by
    rw [h.lines_eq]
    simp only [List.length_append, List.length_cons]
    omega
  have hle : pre.length + 1 + body.length ≤ (added.head?.map TableHeader.headerIndex).getD lines.length := by
    cases added with
    | nil =>
      rw [List.head?_nil, Option.map_none, Option.getD_none]
      omega
    | cons t added => exact hlater t List.mem_cons_self
  have hstop : tripleAfter none (hdr :: body) = none → ∀ next after header, rest = next :: after →
      headerOf (stripLineEnding next) = .ok (some header) →
      (added.head?.map TableHeader.headerIndex).getD lines.length = pre.length + 1 + body.length :=
    fun hclosed next after header hrest hheader => by rw [hnext hclosed next after header hrest hheader, Option.getD_some]
  generalize (added.head?.map TableHeader.headerIndex).getD lines.length = stop at hregion hle hstop
  refine ⟨rest.take (stop - (pre.length + 1 + body.length)), List.take_prefix _ _, ?_, ?_⟩
  · have hdrop : lines.drop (pre.length + 1) = body ++ rest := by
      rw [h.lines_eq, List.drop_append, List.drop_of_length_le (by omega)]
      simp
    unfold slice
    rw [hregion, hdrop, List.take_append, List.take_of_length_le (by omega)]
    congr 2
    omega
  · rintro (hnil | ⟨hclosed, next, after, header, hrest, hheader⟩)
    · rw [hnil, List.take_nil]
    · rw [hstop hclosed next after header hrest hheader, Nat.sub_self, List.take_zero]

/-- The file has the table: its lines are those before the header, the header, the region and the rest, and the rest is
read from outside a string. -/
structure Located (lines : List Text) (path : Text) (tables : List TableHeader) (pre : List Text) (hdr : Text)
    (body rest : List Text) (before : List TableHeader) : Prop extends
    OwnedAt lines path pre hdr body rest before where
  region : ownedRegion tables before.length lines.length =
    (pre.length + 1, pre.length + 1 + body.length)
  closed : tripleAfter none (hdr :: body) = none
  rest_scan : ∃ s, scanFrom .start rest = .ok s ∧ s.inTriple = none
  next : rest = [] ∨ ∃ next after header, rest = next :: after ∧
    headerOf (stripLineEnding next) = .ok (some header)

/-- What is scanned behind the header, up to the next one. -/
theorem headerless_between {pre body : List Text} {hdr path : Text} {before : List TableHeader} {i : Nat}
    (hpre : scanFrom .start pre = .ok ⟨none, pre.length, before⟩)
    (hheader : headerOf (stripLineEnding hdr) = .ok (some (path, false)))
    (hbody : scanFrom .start (pre ++ hdr :: body) =
      .ok ⟨none, i, before ++ [⟨pre.length, path, false⟩]⟩) :
    Headerless (updateTripleState (stripLineEnding hdr) none) body ∧ tripleAfter none (hdr :: body) = none := by
  obtain ⟨m, hm, hrest⟩ := scanFrom_append.mp hbody
  rw [hpre] at hm
  cases hm
  obtain ⟨m, hline, hlines⟩ := scanFrom_cons.mp hrest
  rw [scanLine_header hheader] at hline
  cases hline
  exact ⟨headerless_of_tables hlines rfl, (scanFrom_ok hlines).2.1.symm⟩

/-- **A table that is found is located.** -/
theorem exists_located {lines : List Text} {path : Text} {tables : List TableHeader} {pos : Nat}
    (hscan : scanTables lines = .ok tables) (hpos : findOwned tables path = some pos) :
    ∃ pre hdr body rest before, pos = before.length ∧
      Located lines path tables pre hdr body rest before := by
  obtain ⟨i, hall⟩ := scanTables_eq_ok.mp hscan
  obtain ⟨before, index, after, rfl, hlength, hfirst⟩ := findOwned_eq_some hpos
  obtain ⟨pre, hdr, rest, hlines, rfl, hpre, hheader⟩ := header_at hall rfl
  dsimp only at hpre hheader
  have hregion := ownedRegion_append before after ⟨pre.length, path, false⟩ lines.length
  cases after with
  | nil =>
    -- the region ends with the file
    rw [hlines] at hall
    obtain ⟨hquiet, hclosed⟩ := headerless_between hpre hheader hall
    refine ⟨pre, hdr, rest, [], before, hlength.symm, ⟨by rw [List.append_nil, hlines], hpre, hfirst, hheader,
      hquiet⟩, ?_, hclosed, ⟨_, rfl, rfl⟩, .inl rfl⟩
    rw [hregion, hlines, List.head?_nil, Option.map_none, Option.getD_none, List.length_append,
      List.length_cons, Nat.add_assoc, Nat.add_comm 1]
  | cons t others =>
    -- the region ends with the next header
    obtain ⟨pre', hdr', rest', hlines', hindex', hpre', hheader'⟩ := header_at hall
      (List.append_cons before ⟨pre.length, path, false⟩ (t :: others))
    obtain ⟨body, rfl, hrest⟩ := exists_between (hlines.symm.trans hlines') hpre hpre' (by simp)
    obtain ⟨hquiet, hclosed⟩ := headerless_between hpre hheader hpre'
    rw [hlines'] at hall
    obtain ⟨m, hm, hmore⟩ := scanFrom_append.mp hall
    rw [hpre'] at hm
    cases hm
    refine ⟨pre, hdr, body, hdr' :: rest', before, hlength.symm, ⟨by rw [hlines, hrest], hpre, hfirst, hheader,
      hquiet⟩, ?_, hclosed, scanFrom_elsewhere hmore 0 [], .inr ⟨hdr', rest', _, rfl, hheader'⟩⟩
    rw [hregion, List.head?_cons, Option.map_some, Option.getD_some, ← hindex', List.length_append,
      List.length_cons, Nat.add_assoc, Nat.add_comm 1]

end Unimatrix.CodexInstall
