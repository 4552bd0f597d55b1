import Mathlib.Data.List.Induction
import Unimatrix.Lib.Lossy

/-!
# Lines

`lines lf cr` are the lines of a text, or of its bytes: they end with `lf`, a `cr` before it does not belong to the
line, and what follows the last `lf` is a line unless it is empty. The lines of an encoded text are its lines encoded
(**`lines_encode`**), and what a text begins with is the beginning of its first line (**`lines_append`**). Bytes that are
no text are read line by line as they are read at once (**`lines_decode`**).
-/

namespace Lines

section Generic

variable {α : Type} [DecidableEq α] (lf cr : α)

/-- A line without the `cr` at its end. -/
def stripCr (line : List α) : List α := if line.getLast? = some cr then line.dropLast else line

/-- The lines from the middle of one on, of which `line` has been read. -/
def linesFrom : List α → List α → List (List α)
  | line, [] => if line = [] then [] else [line]
  | line, x :: xs => if x = lf then stripCr cr line :: linesFrom [] xs else linesFrom (line ++ [x]) xs

/-- The lines. -/
def lines (xs : List α) : List (List α) := linesFrom lf cr [] xs

theorem stripCr_append {xs line : List α} (h : xs.getLast? ≠ some cr) :
    stripCr cr (xs ++ line) = xs ++ stripCr cr line := by
  unfold stripCr
  cases line using List.reverseRecOn with
  | nil =>
    rw [List.append_nil, if_neg h, if_neg (fun he => by cases he), List.append_nil]
  | append_singleton line x =>
    rw [← List.append_assoc, List.getLast?_concat, List.getLast?_concat, List.dropLast_concat, List.dropLast_concat]
    split
    · rfl
    · rw [List.append_assoc]

/-- What has no `lf` belongs to the line. -/
theorem linesFrom_append {xs : List α} (h : lf ∉ xs) (line ys : List α) :
    linesFrom lf cr line (xs ++ ys) = linesFrom lf cr (line ++ xs) ys := by
  induction xs generalizing line with
  | nil => rw [List.nil_append, List.append_nil]
  | cons x xs ih =>
    have hx : x ≠ lf := fun he => h (he ▸ List.mem_cons_self)
    rw [List.cons_append, linesFrom, if_neg hx, ih fun hmem => h (List.mem_cons_of_mem _ hmem), List.append_assoc,
      List.singleton_append]

theorem linesFrom_append_line {xs : List α} (hne : xs ≠ []) (h : xs.getLast? ≠ some cr) (line ys : List α) :
    ∃ first, linesFrom lf cr (xs ++ line) ys = (xs ++ first) :: (linesFrom lf cr line ys).tail := by
  induction ys generalizing line with
  | nil =>
    unfold linesFrom
    rw [if_neg (List.append_ne_nil_of_left_ne_nil hne line)]
    refine ⟨line, ?_⟩
    split <;> rfl
  | cons y ys ih =>
    unfold linesFrom
    split
    · exact ⟨stripCr cr line, by rw [stripCr_append cr h, List.tail_cons]⟩
    · rw [List.append_assoc]
      exact ih (line ++ [y])

/-- **What a text begins with is in its first line**; the others are those of the rest. -/
theorem lines_append {xs : List α} (hne : xs ≠ []) (hlf : lf ∉ xs) (hcr : cr ∉ xs) (ys : List α) :
    ∃ first, lines lf cr (xs ++ ys) = (xs ++ first) :: (lines lf cr ys).tail := by
  have hlast : xs.getLast? ≠ some cr := fun he => hcr (List.mem_of_getLast? he)
  unfold lines
  rw [linesFrom_append lf cr hlf, List.nil_append]
  simpa using linesFrom_append_line lf cr hne hlast [] ys

/-- The first line of a text, up to its `lf`. -/
theorem lines_line {xs : List α} (hlf : lf ∉ xs) (ys : List α) :
    lines lf cr (xs ++ lf :: ys) = stripCr cr xs :: lines lf cr ys := by
  unfold lines
  rw [linesFrom_append lf cr hlf, List.nil_append, linesFrom, if_pos rfl]

end Generic

open Utf8

/-- A byte of ASCII is written for its character only. -/
theorem toNat_of_mem_encodeChar {c : Char} {b : UInt8} (hb : b.toNat < 0x80) (h : b ∈ String.utf8EncodeChar c) :
    String.utf8EncodeChar c = [b] ∧ c.toNat = b.toNat := by
  have henc := encoded_encodeChar c
  generalize String.utf8EncodeChar c = bs at henc h ⊢
  cases henc with
  | one hc hx =>
    obtain rfl := List.mem_singleton.mp h
    exact ⟨rfl, hx.symm⟩
  | two hc hx hy =>
    simp only [List.mem_cons, List.not_mem_nil, or_false] at h
    rcases h with rfl | rfl <;> omega
  | three hc hx hy hz =>
    simp only [List.mem_cons, List.not_mem_nil, or_false] at h
    rcases h with rfl | rfl | rfl <;> omega
  | four hc hx hy hz hw =>
    simp only [List.mem_cons, List.not_mem_nil, or_false] at h
    rcases h with rfl | rfl | rfl | rfl <;> omega

/-- The bytes of a character that is not `d` have none of `d`. -/
theorem not_mem_encodeChar {c d : Char} {b : UInt8} (hb : b.toNat < 0x80) (hd : d.toNat = b.toNat) (hne : c ≠ d) :
    b ∉ String.utf8EncodeChar c := fun h =>
  hne (Char.toNat_inj.mp ((toNat_of_mem_encodeChar hb h).2.trans hd.symm))

theorem stripCr_encode (line : List Char) : stripCr 0x0D (encode line) = encode (stripCr '\r' line) := by
  unfold stripCr
  cases line using List.reverseRecOn with
  | nil => rfl
  | append_singleton line c =>
    rw [List.getLast?_concat, List.dropLast_concat, encode_append]
    by_cases hc : c = '\r'
    · subst hc
      have hcr : encode ['\r'] = [0x0D] := rfl
      rw [hcr, List.getLast?_concat, List.dropLast_concat, if_pos rfl, if_pos rfl]
    · have hbyte := not_mem_encodeChar (b := 0x0D) (by decide) (d := '\r') rfl hc
      have hsingle : encode [c] = String.utf8EncodeChar c := by
        rw [encode_cons, encode_nil, List.append_nil]
      have hnonempty : String.utf8EncodeChar c ≠ [] := by
        obtain ⟨b, t, hbt, -⟩ := encodeChar_sequence c
        rw [hbt]
        exact List.cons_ne_nil b t
      have hlast : (encode line ++ encode [c]).getLast? ≠ some 0x0D := by
        rw [hsingle, List.getLast?_append_of_ne_nil _ hnonempty]
        exact fun he => hbyte (List.mem_of_getLast? he)
      rw [if_neg (fun he => hc (Option.some.inj he)), if_neg hlast, encode_append]

theorem linesFrom_encode (line cs : List Char) :
    linesFrom 0x0A 0x0D (encode line) (encode cs) = (linesFrom '\n' '\r' line cs).map encode := by
  induction cs generalizing line with
  | nil =>
    simp only [encode_nil, linesFrom]
    cases line with
    | nil => rfl
    | cons c line =>
      obtain ⟨b, t, hbt, -⟩ := encodeChar_sequence c
      rw [encode_cons, hbt, List.cons_append, if_neg (List.cons_ne_nil _ _), if_neg (List.cons_ne_nil _ _),
        List.map_singleton, encode_cons, hbt, List.cons_append]
  | cons c cs ih =>
    rw [encode_cons]
    by_cases hc : c = '\n'
    · subst hc
      have hnl : String.utf8EncodeChar '\n' = [0x0A] := rfl
      rw [hnl, List.singleton_append, linesFrom, linesFrom, if_pos rfl, if_pos rfl, stripCr_encode, List.map_cons,
        ← ih []]
      rfl
    · have hbyte := not_mem_encodeChar (b := 0x0A) (by decide) (d := '\n') rfl hc
      have hsnoc : encode (line ++ [c]) = encode line ++ String.utf8EncodeChar c := by
        rw [encode_append, encode_cons, encode_nil, List.append_nil]
      rw [linesFrom_append _ _ hbyte, linesFrom, if_neg hc, ← ih, hsnoc]

/-- **The lines of an encoded text are its lines, encoded.** -/
theorem lines_encode (cs : List Char) : lines 0x0A 0x0D (encode cs) = (lines '\n' '\r' cs).map encode :=
  linesFrom_encode [] cs

/-! ## Reading with replacement -/

theorem stripCr_decode (line : List UInt8) : stripCr '\r' (decode line) = decode (stripCr 0x0D line) := by
  unfold stripCr
  cases line using List.reverseRecOn with
  | nil => rfl
  | append_singleton line b =>
    rw [List.getLast?_concat, List.dropLast_concat]
    by_cases hb : b = 0x0D
    · subst hb
      have hread : decode (line ++ [0x0D]) = decode line ++ ['\r'] := decode_ascii line (by decide) []
      rw [hread, List.getLast?_concat, List.dropLast_concat, if_pos rfl, if_pos rfl]
    · have hlast : (decode (line ++ [b])).getLast? ≠ some '\r' := fun h => by
        have hcr : '\r'.toNat = 0x0D := rfl
        rcases getLast?_decode line b h with heq | hge
        · exact hb (UInt8.toNat_inj.mp (heq.symm.trans hcr))
        · omega
      rw [if_neg hlast, if_neg fun h => hb (Option.some.inj h)]

theorem decode_ne_nil {line : List UInt8} (h : line ≠ []) : decode line ≠ [] := by
  intro he
  have hlen := length_encode_decode line
  rw [he, encode_nil, List.length_nil] at hlen
  exact h (List.length_eq_zero_iff.mp (by omega))

theorem not_mem_decode {line : List UInt8} (h : 0x0A ∉ line) : '\n' ∉ decode line := fun hmem => by
  obtain ⟨b, hb, heq⟩ := mem_decode (by decide) hmem
  have hbyte : b = 0x0A := UInt8.toNat_inj.mp heq
  exact h (hbyte ▸ hb)

theorem linesFrom_decode (line ys : List UInt8) (h : 0x0A ∉ line) :
    linesFrom '\n' '\r' [] (decode (line ++ ys)) = (linesFrom 0x0A 0x0D line ys).map decode := by
  induction ys generalizing line with
  | nil =>
    have hread := linesFrom_append '\n' '\r' (not_mem_decode h) [] []
    rw [List.append_nil, List.nil_append] at hread
    rw [List.append_nil, hread]
    unfold linesFrom
    by_cases hline : line = []
    · rw [hline]
      rfl
    · rw [if_neg (decode_ne_nil hline), if_neg hline, List.map_singleton]
  | cons y ys ih =>
    by_cases hy : y = 0x0A
    · subst hy
      have hread : decode (line ++ 0x0A :: ys) = decode line ++ '\n' :: decode ys :=
        decode_ascii line (by decide) ys
      rw [hread, linesFrom_append _ _ (not_mem_decode h), List.nil_append, linesFrom, linesFrom, if_pos rfl,
        if_pos rfl, List.map_cons, stripCr_decode]
      exact congrArg _ (ih [] List.not_mem_nil)
    · rw [linesFrom, if_neg hy, ← ih (line ++ [y]), List.append_assoc, List.singleton_append]
      rw [List.mem_append, not_or, List.mem_singleton]
      exact ⟨h, fun he => hy he.symm⟩

/-- **The lines of bytes that are read with replacement are their lines, so read.** -/
theorem lines_decode (bs : List UInt8) : lines '\n' '\r' (decode bs) = (lines 0x0A 0x0D bs).map decode :=
  linesFrom_decode [] bs List.not_mem_nil

end Lines
