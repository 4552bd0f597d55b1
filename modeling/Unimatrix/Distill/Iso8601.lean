import Mathlib.Data.List.TakeWhile
import Unimatrix.Distill.Timestamp
import Unimatrix.Lib.ByteText
import Unimatrix.Lib.Civil
import Unimatrix.Lib.Decimal
import Unimatrix.Lib.Except

/-!
# What the timestamp parser takes

The grammar that the parser's comment describes (`Names`: a stamp, an optional fraction, an optional zone, a date that
exists, an instant from 1970 on) against the one that `parse_iso8601_to_epoch_ms` reads (**`parse_eq_ok_iff`**). The
parser takes more: a day that its month does not have, a point without digits, and behind the seconds a zone with
something after it or without its minutes (`Tail`). The instants are the same: `daysFromCivil_eq` is the calendar's day
number. So the parser is exact on the strings that do not `Deviate` in one of these ways, and on no other.
-/

namespace Unimatrix.Distill

open Utf8 Decimal
open Except (bind_eq_ok)

/-! ## The grammar -/

/-- The fields of a timestamp up to its seconds. -/
@[ext] structure Stamp where
  year : Nat
  month : Nat
  day : Nat
  sep : Char
  hour : Nat
  min : Nat
  sec : Nat
  year_lt : year < 10000
  month_range : 1 ≤ month ∧ month ≤ 12
  day_range : 1 ≤ day ∧ day ≤ 31
  sep_mem : sep ∈ ['T', 't', ' ']
  hour_le : hour ≤ 23
  min_le : min ≤ 59
  sec_le : sec ≤ 60

namespace Stamp

/-- `YYYY-MM-DDThh:mm:ss`. -/
def text (t : Stamp) : Str :=
  pad t.year 4 ++ ['-'] ++ pad t.month 2 ++ ['-'] ++ pad t.day 2 ++ [t.sep] ++ pad t.hour 2 ++ [':'] ++
    pad t.min 2 ++ [':'] ++ pad t.sec 2

/-- The day is one of the calendar. -/
def DayExists (t : Stamp) : Prop := Civil.IsDate t.year t.month t.day

end Stamp

/-- A fraction: nothing, or a point and digits. -/
def fractionText : Option Str → Str
  | none => []
  | some digits => '.' :: digits

/-- The milliseconds of a fraction; what is below them is cut off. -/
def fractionMillis : Option Str → Nat
  | none => 0
  | some digits => Nat.ofDigitChars 10 digits 0 * 1000 / 10 ^ digits.length

/-- The sign of an offset. -/
inductive Sign : Char → Int → Prop
  | plus : Sign '+' 1
  | minus : Sign '-' (-1)

/-- A zone, and its offset from UTC in seconds. -/
inductive Zone : Str → Int → Prop
  | absent : Zone [] 0
  | utc {c : Char} (hc : c = 'Z' ∨ c = 'z') : Zone [c] 0
  | offset {c : Char} {sign : Int} {hh mm : Nat} {colon : Str} (hsign : Sign c sign) (hhh : hh < 100) (hmm : mm < 100)
      (hcolon : colon = [] ∨ colon = [':']) :
      Zone (c :: (pad hh 2 ++ (colon ++ pad mm 2))) (sign * (hh * 3600 + mm * 60))

/-- What the parser reads as the minutes of an offset: two digits with anything after them, or none at all where the
string ends too soon. -/
inductive Minutes : Str → Nat → Prop
  | full {colon : Str} {mm : Nat} (hcolon : colon = [] ∨ colon = [':']) (hmm : mm < 100) (junk : Str) :
      Minutes (colon ++ (pad mm 2 ++ junk)) mm
  | missing {colon cut : Str} (hcolon : colon = [] ∨ colon = [':']) (hcut : (encode cut).length < 2) :
      Minutes (colon ++ cut) 0

/-- What the parser reads as a zone. -/
inductive Tail : Str → Int → Prop
  | absent : Tail [] 0
  | utc {c : Char} (hc : c = 'Z' ∨ c = 'z') (junk : Str) : Tail (c :: junk) 0
  | offset {c : Char} {sign : Int} {hh mm : Nat} {minutes : Str} (hsign : Sign c sign) (hhh : hh < 100)
      (hmm : Minutes minutes mm) : Tail (c :: (pad hh 2 ++ minutes)) (sign * (hh * 3600 + mm * 60))

/-- The instant in epoch milliseconds. -/
def instantMs (t : Stamp) (frac : Option Str) (off : Int) : Int :=
  (((Civil.dayNumber t.year t.month t.day : Int) - Civil.dayNumber 1970 1 1) * 86400 + t.hour * 3600 + t.min * 60 +
    t.sec - off) * 1000 + fractionMillis frac

/-- The string is a stamp, a fraction and a rest. -/
structure Splits (s : Str) (t : Stamp) (frac : Option Str) (rest : Str) : Prop where
  text : s = t.text ++ (fractionText frac ++ rest)
  digits : ∀ ds ∈ frac, ∀ c ∈ ds, c.isDigit

/-- **The string names an instant** of `ms` epoch milliseconds. -/
def Names (s : Str) (ms : Nat) : Prop :=
  ∃ t frac zone off, Splits s t frac zone ∧ frac ≠ some [] ∧ Zone zone off ∧ t.DayExists ∧ instantMs t frac off = ms

/-- The string deviates from the grammar in a way that the parser does not see. -/
def Deviates (s : Str) : Prop :=
  ∃ t frac tail off, Splits s t frac tail ∧ Tail tail off ∧ 0 ≤ instantMs t frac off ∧
    (¬ t.DayExists ∨ frac = some [] ∨ ¬ ∃ off, Zone tail off)

/-- The parser indexes within the string and reads the instants it names. -/
structure ParsesExactly (s : Str) : Prop where
  inRange : InRange (parseIso8601ToEpochMs (encode s))
  exact : ∀ ms, parseIso8601ToEpochMs (encode s) = .ok ms ↔ Names s ms

/-! ## Digits -/

theorem ok_bind {α β : Type} (a : α) (f : α → Read β) : (Except.ok a : Read α) >>= f = f a := rfl

theorem ite_bind_eq_ok {α β : Type} {p : Prop} [Decidable p] {x y : Read α} {f : α → Read β} {b : β} :
    (if p then x >>= f else y >>= f) = .ok b ↔ ∃ a, (if p then x else y) = .ok a ∧ f a = .ok b := by
  split <;> exact bind_eq_ok

theorem index_eq_ok {bytes : List UInt8} {i : Nat} {b : UInt8} :
    index bytes i = .ok b ↔ bytes[i]? = some b := by
  unfold index
  split <;> rename_i h <;> simp [h]

theorem digitChar_lt {n : Nat} (h : n < 10) : n.digitChar.toNat < 0x80 := by
  rw [Nat.toNat_digitChar_of_lt_ten h]
  omega

theorem isDigit_ascii {c : Char} (h : c.isDigit) : c.toNat < 0x80 := by
  have := (digit_lt h).1
  change c.toNat - 48 < 10 at this
  omega

theorem digit_eq_ok {b : UInt8} {n : Nat} : digit b = .ok n ↔ n < 10 ∧ b = byte n.digitChar := by
  unfold digit
  simp only [UInt8.le_iff_toNat_le]
  constructor
  · intro h
    split at h
    · rename_i hb
      simp at hb
      cases h
      refine ⟨by omega, ?_⟩
      rw [byte, Nat.toNat_digitChar_of_lt_ten (by omega), Nat.add_sub_cancel' hb.1, UInt8.ofNat_toNat]
    · cases h
  · rintro ⟨hn, rfl⟩
    have hb : (byte n.digitChar).toNat = 48 + n := by
      rw [byte, Nat.toNat_digitChar_of_lt_ten hn, toNat_ofNat_of_lt (by omega)]
    simp [hb]
    omega

theorem two_eq_ok {bytes : List UInt8} {i n : Nat} :
    two bytes i = .ok n ↔ n < 100 ∧ At bytes i (pad n 2) := by
  have hpad : ∀ {a b : Nat}, a < 10 → b < 10 → (At bytes i (pad (a * 10 + b) 2) ↔
      bytes[i]? = some (byte a.digitChar) ∧ bytes[i + 1]? = some (byte b.digitChar)) := by
    intro a b ha hb
    have h : pad (a * 10 + b) 2 = [a.digitChar] ++ [b.digitChar] := by
      rw [← pad_one ha, ← pad_one hb]
      exact pad_mul_add Nat.one_pos Nat.one_pos ha hb
    rw [h, at_append, at_singleton (digitChar_lt ha), length_encode_ascii (by simpa using digitChar_lt ha),
      List.length_singleton, at_singleton (digitChar_lt hb)]
    rfl
  simp only [two, bind_eq_ok, index_eq_ok, digit_eq_ok, Except.ok.injEq]
  constructor
  · rintro ⟨x, hx, a, ⟨ha, rfl⟩, y, hy, b, ⟨hb, rfl⟩, rfl⟩
    exact ⟨by omega, (hpad ha hb).mpr ⟨hx, hy⟩⟩
  · rintro ⟨hn, h⟩
    have heq : n / 10 * 10 + n % 10 = n := by omega
    rw [← heq] at h
    obtain ⟨hx, hy⟩ := (hpad (by omega) (by omega)).mp h
    exact ⟨_, hx, _, ⟨by omega, rfl⟩, _, hy, _, ⟨by omega, rfl⟩, heq⟩

theorem length_encode_pad {n w : Nat} (hw : 0 < w) (h : n < 10 ^ w) : (encode (pad n w)).length = w := by
  rw [length_encode_ascii fun c hc => isDigit_ascii (isDigit_of_mem_pad hc), length_pad hw h]

theorem four_eq_ok {bytes : List UInt8} {i n : Nat} :
    four bytes i = .ok n ↔ n < 10000 ∧ At bytes i (pad n 4) := by
  have hpad : ∀ {a b : Nat}, a < 100 → b < 100 → (At bytes i (pad (a * 100 + b) 4) ↔
      At bytes i (pad a 2) ∧ At bytes (i + 2) (pad b 2)) := by
    intro a b ha hb
    have h : pad (a * 100 + b) 4 = pad a 2 ++ pad b 2 := pad_mul_add Nat.two_pos Nat.two_pos ha hb
    rw [h, at_append, length_encode_pad Nat.two_pos ha]
  simp only [four, bind_eq_ok, two_eq_ok, Except.ok.injEq]
  constructor
  · rintro ⟨a, ⟨ha, hx⟩, b, ⟨hb, hy⟩, rfl⟩
    exact ⟨by omega, (hpad ha hb).mpr ⟨hx, hy⟩⟩
  · rintro ⟨hn, h⟩
    have heq : n / 100 * 100 + n % 100 = n := by omega
    rw [← heq] at h
    obtain ⟨hx, hy⟩ := (hpad (by omega) (by omega)).mp h
    exact ⟨_, ⟨by omega, hx⟩, _, ⟨by omega, hy⟩, heq⟩

/-! ## Dates -/

theorem era_eq (y : Int) : (if 0 ≤ y then y else y - 399).tdiv 400 = y / 400 := by
  split
  · exact Int.tdiv_eq_ediv_of_nonneg ‹_›
  · have h : y - 399 = -(399 - y) := by omega
    rw [h, Int.neg_tdiv, Int.tdiv_eq_ediv_of_nonneg (by omega)]
    omega

/-- The day number by the years that end in February and the days since the first of March. -/
theorem daysFromCivil_march (y : Int) (m d : Nat) :
    let y' := if m ≤ 2 then y - 1 else y
    daysFromCivil y m d = 365 * y' + y' / 4 - y' / 100 + y' / 400 +
      ((153 * (if 2 < m then (m : Int) - 3 else m + 9) + 2) / 5 + d - 1) - 719468 := by
  intro y'
  have hmarch : 0 ≤ 153 * (if 2 < m then (m : Int) - 3 else m + 9) + 2 := by split <;> omega
  unfold daysFromCivil
  dsimp only
  rw [era_eq, Int.tdiv_eq_ediv_of_nonneg hmarch, Int.tdiv_eq_ediv_of_nonneg (by omega),
    Int.tdiv_eq_ediv_of_nonneg (by omega)]
  omega

/-- **The parser's day arithmetic is the calendar's.** -/
theorem daysFromCivil_eq (y : Nat) {m d : Nat} (hm : 1 ≤ m ∧ m ≤ 12) (hd : 1 ≤ d) :
    daysFromCivil y m d = (Civil.dayNumber y m d : Int) - Civil.dayNumber 1970 1 1 := by
  rw [Civil.dayNumber_epoch, Civil.dayNumber, daysFromCivil_march]
  by_cases h : m ≤ 2
  · have hyear := Civil.daysBeforeYear_add y
    -- in January and February the year before is not over
    have hjan : (Civil.daysUpToMonth y (m - 1) : Int) = 31 * (m - 1) := by
      obtain rfl | rfl : m = 1 ∨ m = 2 := by omega
      · rfl
      · rfl
    rw [if_pos h, if_neg (by omega)]
    omega
  · obtain ⟨k, rfl⟩ : ∃ k, m = k + 3 := ⟨m - 3, by omega⟩
    have hmarch := Civil.daysUpToMonth_eq y (m := k) (by omega)
    have hfeb : Civil.februaryDays y = 28 + if Civil.IsLeap y then 1 else 0 := by
      unfold Civil.februaryDays
      split <;> rfl
    have hleap := Civil.daysBeforeYear_leap y
    have hmonth : ((k + 3 : Nat) : Int) - 3 = k := by omega
    rw [if_neg h, if_pos (by omega), Nat.add_sub_assoc (by decide), hmarch, hfeb, hmonth]
    clear hmarch hfeb hmonth h hm
    generalize (if Civil.IsLeap y then 1 else 0) = leap at hleap ⊢
    push_cast
    omega

/-! ## Fractions -/

/-- The fraction ends where the rest begins. -/
def Stops : Option Str → Str → Prop
  | none, rest => rest.head? ≠ some '.'
  | some _, rest => ∀ c ∈ rest.head?, c.isDigit = false

theorem exists_stops (r : Str) :
    ∃ frac rest, r = fractionText frac ++ rest ∧ (∀ ds ∈ frac, ∀ c ∈ ds, c.isDigit) ∧ Stops frac rest := by
  by_cases h : r.head? = some '.'
  · obtain ⟨r', rfl⟩ := List.head?_eq_some_iff.mp h
    refine ⟨some (r'.takeWhile Char.isDigit), r'.dropWhile Char.isDigit, ?_, ?_, ?_⟩
    · simp [fractionText]
    · rintro ds ⟨⟩ c hc
      exact List.mem_takeWhile_imp hc
    · intro c hc
      have := List.head?_dropWhile_not Char.isDigit r'
      rw [Option.mem_def.mp hc] at this
      simpa using this
  · exact ⟨none, r, rfl, by simp, h⟩

theorem fractionFrom_stop {rest : Str} (h : ∀ c ∈ rest.head?, c.isDigit = false) (idx k v : Nat) :
    fractionFrom (encode rest) idx k v = (idx, k, v) := by
  cases hbytes : encode rest with
  | nil => rfl
  | cons b bs =>
    rw [fractionFrom, if_neg]
    intro hb
    -- the byte of a digit is a digit of the text
    have hdigit : digit b = .ok (b.toNat - 0x30) := if_pos hb
    obtain ⟨hlt, hbyte⟩ := digit_eq_ok.mp hdigit
    have hat : At (encode rest) 0 [(b.toNat - 0x30).digitChar] := by
      rw [at_singleton (digitChar_lt hlt), hbytes]
      exact congrArg some hbyte
    obtain ⟨t, ht⟩ := at_encode.mp hat
    have hc := h (b.toNat - 0x30).digitChar (by rw [← ht]; rfl)
    rw [Nat.isDigit_digitChar, decide_eq_false_iff_not] at hc
    exact hc hlt

theorem fractionFrom_append {ds rest : Str} (hds : ∀ c ∈ ds, c.isDigit) (h : ∀ c ∈ rest.head?, c.isDigit = false)
    (idx k v : Nat) (hk : k ≤ 3) : fractionFrom (encode (ds ++ rest)) idx k v =
      (idx + ds.length, min (k + ds.length) 3, Nat.ofDigitChars 10 (ds.take (3 - k)) v) := by
  induction ds generalizing idx k v with
  | nil =>
    rw [List.nil_append, fractionFrom_stop h, List.take_nil, List.length_nil, Nat.add_zero, Nat.add_zero,
      Nat.min_eq_left hk]
    rfl
  | cons c ds ih =>
    obtain ⟨hc, hds⟩ := List.forall_mem_cons.mp hds
    have hval := digit_lt hc
    have hbyte : String.utf8EncodeChar c = [byte c] := by
      have henc : encode [c] = [c].map fun c => UInt8.ofNat c.toNat := encode_ascii (by simpa using isDigit_ascii hc)
      simpa [encode_cons, byte] using henc
    have hnat : (byte c).toNat = c.toNat := toNat_ofNat_of_lt (by have := isDigit_ascii hc; omega)
    have hrange : 0x30 ≤ byte c ∧ byte c ≤ 0x39 := by
      simp only [UInt8.le_iff_toNat_le, hnat]
      change c.toNat - 48 < 10 ∧ 48 ≤ c.toNat at hval
      change 48 ≤ c.toNat ∧ c.toNat ≤ 57
      omega
    rw [List.cons_append, encode_cons, hbyte, List.singleton_append, fractionFrom, if_pos hrange, hnat]
    split
    · rename_i hlt
      obtain ⟨j, hj⟩ : ∃ j, 3 - k = j + 1 := ⟨2 - k, by omega⟩
      rw [ih hds _ _ _ (by omega), hj, List.take_succ_cons, Nat.ofDigitChars_cons, List.length_cons,
        show 3 - (k + 1) = j by omega]
      refine Prod.ext (by dsimp only; omega) (Prod.ext (by dsimp only; omega) ?_)
      rw [Nat.mul_comm]
      rfl
    · have hk3 : 3 - k = 0 := by omega
      rw [ih hds _ _ _ hk, hk3, List.take_zero, List.take_zero, List.length_cons]
      exact Prod.ext (by dsimp only; omega) (Prod.ext (by dsimp only; omega) rfl)

/-- The first three digits, filled up with zeros, are the fraction in thousandths. -/
theorem fractionMillis_eq {ds : Str} (hds : ∀ c ∈ ds, c.isDigit) :
    Nat.ofDigitChars 10 (ds.take 3) 0 * 10 ^ (3 - min ds.length 3) = fractionMillis (some ds) := by
  rw [fractionMillis]
  rcases Nat.le_total ds.length 3 with h | h
  · rw [List.take_of_length_le h, Nat.min_eq_left h, show 1000 = 10 ^ (3 - ds.length) * 10 ^ ds.length by
      rw [← Nat.pow_add, Nat.sub_add_cancel h], ← Nat.mul_assoc, Nat.mul_div_cancel _ (Nat.pow_pos (by decide))]
  · have hlt := ofDigitChars_lt (l := ds.drop 3) fun c hc => hds c (List.mem_of_mem_drop hc)
    have hval : Nat.ofDigitChars 10 ds 0 = 10 ^ (ds.drop 3).length * Nat.ofDigitChars 10 (ds.take 3) 0 +
        Nat.ofDigitChars 10 (ds.drop 3) 0 := by
      rw [← Nat.ofDigitChars_eq_ofDigitChars_zero, ← Nat.ofDigitChars_append, List.take_append_drop]
    have hpow : 10 ^ ds.length = 10 ^ (ds.drop 3).length * 1000 := by
      rw [List.length_drop, ← Nat.sub_add_cancel h, Nat.pow_add, Nat.add_sub_cancel]
    rw [Nat.min_eq_right h, Nat.sub_self, Nat.pow_zero, Nat.mul_one, hpow, Nat.mul_div_mul_right _ _ (by decide), hval,
      Nat.mul_add_div (Nat.pow_pos (by decide)), Nat.div_eq_of_lt hlt, Nat.add_zero]

theorem fraction_eq {bytes : List UInt8} {frac : Option Str} {rest : Str}
    (h : bytes.drop 19 = encode (fractionText frac ++ rest)) (hds : ∀ ds ∈ frac, ∀ c ∈ ds, c.isDigit)
    (hstop : Stops frac rest) : fraction bytes = (19 + (fractionText frac).length, fractionMillis frac) := by
  have hpoint : bytes[19]? = some (byte '.') ↔ ['.'] <+: fractionText frac ++ rest :=
    (at_singleton (by decide)).symm.trans (at_rest h)
  cases frac with
  | none =>
    rw [fraction, if_neg]
    · rfl
    · rw [hpoint]
      rintro ⟨t, ht⟩
      exact hstop (by rw [show rest = '.' :: t from ht.symm]; rfl)
  | some ds =>
    have hdrop : bytes.drop 20 = encode (ds ++ rest) := by
      have hcons : encode (fractionText (some ds) ++ rest) = byte '.' :: encode (ds ++ rest) := rfl
      rw [← List.drop_drop (i := 1) (j := 19), h, hcons]
      rfl
    rw [fraction, if_pos (hpoint.mpr ⟨ds ++ rest, rfl⟩), hdrop, fractionFrom_append (hds ds rfl) hstop _ _ _ (by decide)]
    refine Prod.ext ?_ ?_
    · simp [fractionText]
      omega
    · simpa using fractionMillis_eq (hds ds rfl)

/-! ## Zones -/

theorem Tail.stops {tail : Str} {off : Int} (h : Tail tail off) (frac : Option Str) : Stops frac tail := by
  have hhead : ∀ c ∈ tail.head?, c = 'Z' ∨ c = 'z' ∨ c = '+' ∨ c = '-' := by
    cases h with
    | absent => simp
    | utc hc junk => rcases hc with rfl | rfl <;> simp
    | offset hsign => cases hsign <;> simp
  cases frac with
  | none =>
    intro hpoint
    have := hhead '.' hpoint
    simp at this
  | some ds =>
    intro c hc
    rcases hhead c hc with rfl | rfl | rfl | rfl <;> rfl

theorem Zone.tail {zone : Str} {off : Int} (h : Zone zone off) : Tail zone off := by
  cases h with
  | absent => exact .absent
  | utc hc => exact .utc hc []
  | offset hsign hhh hmm hcolon =>
    have hfull := Minutes.full hcolon hmm []
    rw [List.append_nil] at hfull
    exact .offset hsign hhh hfull

/-- Where two bytes are left, the minutes are two digits. -/
theorem minutes_iff {r : Str} {mm : Nat} (hcolon : r.head? ≠ some ':') :
    Minutes r mm ↔ if 2 ≤ (encode r).length then mm < 100 ∧ pad mm 2 <+: r else mm = 0 := by
  constructor
  · rintro (⟨rfl | rfl, hmm, junk⟩ | @⟨_, cut, rfl | rfl, hcut⟩)
    · rw [List.nil_append, if_pos]
      · exact ⟨hmm, ⟨junk, rfl⟩⟩
      · rw [encode_append, List.length_append, length_encode_pad Nat.two_pos hmm]
        omega
    · exact absurd rfl hcolon
    · rw [List.nil_append, if_neg (by omega)]
    · exact absurd rfl hcolon
  · intro h
    split at h
    · obtain ⟨hmm, junk, rfl⟩ := h
      exact .full (.inl rfl) hmm junk
    · rw [h]
      exact .missing (.inl rfl) (by omega)

theorem minutes_colon_iff {r : Str} {mm : Nat} :
    Minutes (':' :: r) mm ↔ if 2 ≤ (encode r).length then mm < 100 ∧ pad mm 2 <+: r else mm = 0 := by
  constructor
  · generalize hs : ':' :: r = s
    rintro (⟨rfl | rfl, hmm, junk⟩ | @⟨_, cut, rfl | rfl, hcut⟩)
    · -- a colon is no digit
      exfalso
      have hlen : (pad mm 2).length = 2 := length_pad Nat.two_pos hmm
      cases hpad : pad mm 2 with
      | nil => simp [hpad] at hlen
      | cons c l =>
        rw [hpad] at hs
        have hc : c.isDigit := isDigit_of_mem_pad (by rw [hpad]; exact List.mem_cons_self)
        rw [← (List.cons.inj hs).1] at hc
        simp at hc
    · have hr : r = pad mm 2 ++ junk := (List.cons.inj hs).2
      rw [hr, if_pos]
      · exact ⟨hmm, ⟨junk, rfl⟩⟩
      · rw [encode_append, List.length_append, length_encode_pad Nat.two_pos hmm]
        omega
    · rw [List.nil_append] at hs
      rw [← hs, encode_cons, List.length_append, length_encodeChar_ascii (by decide)] at hcut
      rw [if_neg (by omega)]
    · have hr : r = cut := (List.cons.inj hs).2
      rw [hr, if_neg (by omega)]
  · intro h
    split at h
    · obtain ⟨hmm, junk, rfl⟩ := h
      exact .full (.inr rfl) hmm junk
    · rw [h]
      exact .missing (.inr rfl) (by omega)

theorem getElem?_eq_byte {bytes : List UInt8} {i : Nat} {c d : Char} {r : Str} (h : bytes.drop i = encode (c :: r))
    (hd : d.toNat < 0x80) : bytes[i]? = some (byte d) ↔ c = d := by
  rw [show byte d = UInt8.ofNat d.toNat from rfl, ← at_singleton hd, at_rest h]
  exact ⟨fun ⟨t, ht⟩ => (List.cons.inj ht).1.symm, fun hc => ⟨r, by rw [hc]; rfl⟩⟩

theorem drop_ascii {bytes : List UInt8} {i : Nat} {c : Char} {r : Str} (h : bytes.drop i = encode (c :: r))
    (hc : c.toNat < 0x80) : bytes.drop (i + 1) = encode r := by
  have hdrop := @drop_rest _ _ [c] _ h
  rwa [length_encode_ascii (by simpa using hc)] at hdrop

theorem length_encode_rest {bytes : List UInt8} {i : Nat} {r : Str} (h : bytes.drop i = encode r) :
    (encode r).length = bytes.length - i := by
  rw [← h, List.length_drop]

theorem two_rest_eq_ok {bytes : List UInt8} {i mm : Nat} {r : Str} (h : bytes.drop i = encode r) :
    (if 2 ≤ (encode r).length then two bytes i else .ok 0) = .ok mm ↔
      if 2 ≤ (encode r).length then mm < 100 ∧ pad mm 2 <+: r else mm = 0 := by
  split
  · rw [two_eq_ok, at_rest h]
  · simp [eq_comm]

/-- The minutes of an offset, as the parser reads them at `i`. -/
theorem minutes_eq_ok {bytes : List UInt8} {i mm : Nat} {r : Str} (h : bytes.drop i = encode r) :
    (if i + 2 ≤ bytes.length ∧ (if bytes[i]? = some (byte ':') then i + 1 else i) + 2 ≤ bytes.length then
      two bytes (if bytes[i]? = some (byte ':') then i + 1 else i) else .ok 0) = .ok mm ↔ Minutes r mm := by
  have hlen := length_encode_rest h
  by_cases hcolon : r.head? = some ':'
  · obtain ⟨r, rfl⟩ := List.head?_eq_some_iff.mp hcolon
    have hdrop := drop_ascii h (by decide)
    have hlen' := length_encode_rest hdrop
    have hiff : i + 2 ≤ bytes.length ∧ i + 1 + 2 ≤ bytes.length ↔ 2 ≤ (encode r).length := by omega
    simp only [if_pos ((getElem?_eq_byte h (by decide)).mpr rfl), hiff]
    rw [two_rest_eq_ok hdrop, minutes_colon_iff]
  · have hbyte : ¬ bytes[i]? = some (byte ':') := by
      cases r with
      | nil =>
        rw [List.getElem?_eq_none (by simpa using h)]
        simp
      | cons c r =>
        rw [getElem?_eq_byte h (by decide)]
        simpa using hcolon
    have hiff : i + 2 ≤ bytes.length ∧ i + 2 ≤ bytes.length ↔ 2 ≤ (encode r).length := by omega
    simp only [if_neg hbyte, hiff]
    rw [two_rest_eq_ok h, minutes_iff hcolon]

theorem sign_iff {c : Char} {sign : Int} :
    Sign c sign ↔ (c = '+' ∨ c = '-') ∧ sign = if c = '-' then -1 else 1 := by
  constructor
  · rintro (_ | _) <;> simp
  · rintro ⟨rfl | rfl, rfl⟩
    · exact .plus
    · exact .minus

/-- The offset behind its sign, as the parser reads it at `i`. -/
theorem offset_eq_ok {bytes : List UInt8} {i : Nat} {r : Str} {sign off : Int} (h : bytes.drop (i + 1) = encode r) :
    (if bytes.length < i + 3 then .error .none
      else do
        let oh ← two bytes (i + 1)
        let om ← if i + 5 ≤ bytes.length ∧ (if bytes[i + 3]? = some (byte ':') then i + 4 else i + 3) + 2 ≤ bytes.length
          then two bytes (if bytes[i + 3]? = some (byte ':') then i + 4 else i + 3) else .ok 0
        .ok (sign * (oh * 3600 + om * 60)) : Read Int) = .ok off ↔
      ∃ hh mm minutes, r = pad hh 2 ++ minutes ∧ hh < 100 ∧ Minutes minutes mm ∧
        off = sign * (hh * 3600 + mm * 60) := by
  have hlen := length_encode_rest h
  have hrest : ∀ {hh : Nat} {minutes : Str}, hh < 100 → r = pad hh 2 ++ minutes →
      bytes.drop (i + 3) = encode minutes := by
    intro hh minutes hhh hr
    rw [hr] at h
    have hdrop := drop_rest h
    rwa [length_encode_pad Nat.two_pos hhh] at hdrop
  constructor
  · intro hok
    split at hok
    · cases hok
    · obtain ⟨hh, htwo, hok⟩ := bind_eq_ok.mp hok
      obtain ⟨mm, hmin, hok⟩ := ite_bind_eq_ok.mp hok
      obtain ⟨hhh, hat⟩ := two_eq_ok.mp htwo
      obtain ⟨minutes, hr⟩ := (at_rest h).mp hat
      exact ⟨hh, mm, minutes, hr.symm, hhh, (minutes_eq_ok (hrest hhh hr.symm)).mp hmin, (Except.ok.inj hok).symm⟩
  · rintro ⟨hh, mm, minutes, hr, hhh, hmin, rfl⟩
    rw [hr, encode_append, List.length_append, length_encode_pad Nat.two_pos hhh] at hlen
    rw [if_neg (by omega)]
    exact bind_eq_ok.mpr ⟨hh, two_eq_ok.mpr ⟨hhh, (at_rest h).mpr ⟨minutes, hr.symm⟩⟩,
      ite_bind_eq_ok.mpr ⟨mm, (minutes_eq_ok (hrest hhh hr)).mpr hmin, rfl⟩⟩

/-- **The zone as the parser reads it.** -/
theorem tzOffsetSecs_eq_ok {bytes : List UInt8} {i : Nat} {r : Str} {off : Int} (h : bytes.drop i = encode r) :
    tzOffsetSecs bytes i = .ok off ↔ Tail r off := by
  have hlen := length_encode_rest h
  unfold tzOffsetSecs
  cases r with
  | nil =>
    rw [if_neg (by rw [encode_nil] at hlen; simp at h; omega)]
    constructor
    · rintro ⟨⟩
      exact .absent
    · rintro ⟨⟩
      rfl
  | cons c r =>
    obtain ⟨b, bs, hchar, -⟩ := encodeChar_sequence c
    have hb : bytes[i]? = some b := by
      rw [← List.head?_drop, h, encode_cons, hchar]
      rfl
    have hbyte : ∀ {d : Char}, d.toNat < 0x80 → (b = byte d ↔ c = d) := by
      intro d hd
      rw [← getElem?_eq_byte h hd, hb, Option.some.injEq]
    have hi : i < bytes.length := (List.getElem?_eq_some_iff.mp hb).1
    rw [if_pos hi, show index bytes i = .ok b from index_eq_ok.mpr hb]
    change (if b = byte 'Z' ∨ b = byte 'z' then _ else _) = _ ↔ _
    simp only [hbyte (d := 'Z') (by decide), hbyte (d := 'z') (by decide), hbyte (d := '+') (by decide),
      hbyte (d := '-') (by decide)]
    by_cases hz : c = 'Z' ∨ c = 'z'
    · rw [if_pos hz]
      constructor
      · rintro ⟨⟩
        exact .utc hz r
      · rintro (_ | _ | hsign)
        · rfl
        · rcases hz with rfl | rfl <;> cases hsign
    · rw [if_neg hz]
      by_cases hsign : c = '+' ∨ c = '-'
      · have hdrop : bytes.drop (i + 1) = encode r := drop_ascii h (by rcases hsign with rfl | rfl <;> decide)
        rw [if_pos hsign]
        refine (offset_eq_ok hdrop).trans ⟨?_, ?_⟩
        · rintro ⟨hh, mm, minutes, rfl, hhh, hmin, rfl⟩
          exact .offset (sign_iff.mpr ⟨hsign, rfl⟩) hhh hmin
        · rintro (_ | hc | @⟨_, _, hh, mm, minutes, hs, hhh, hmin⟩)
          · exact absurd hc hz
          · exact ⟨hh, mm, minutes, rfl, hhh, hmin, by rw [(sign_iff.mp hs).2]⟩
      · rw [if_neg hsign]
        refine iff_of_false (fun hok => by cases hok) ?_
        rintro (_ | hc | hs)
        · exact hz hc
        · exact hsign (sign_iff.mp hs).1

/-! ## Timestamps -/

theorem sep_ascii {c : Char} (h : c ∈ ['T', 't', ' ']) : c.toNat < 0x80 := by
  simp only [List.mem_cons, List.not_mem_nil, or_false] at h
  rcases h with rfl | rfl | rfl <;> decide

namespace Stamp

theorem length_year (t : Stamp) : (encode (pad t.year 4)).length = 4 :=
  length_encode_pad (by decide) t.year_lt

theorem length_month (t : Stamp) : (encode (pad t.month 2)).length = 2 :=
  length_encode_pad Nat.two_pos (by have := t.month_range; omega)

theorem length_day (t : Stamp) : (encode (pad t.day 2)).length = 2 :=
  length_encode_pad Nat.two_pos (by have := t.day_range; omega)

theorem length_sep (t : Stamp) : (encode [t.sep]).length = 1 :=
  length_encode_ascii (by simpa using sep_ascii t.sep_mem)

theorem length_hour (t : Stamp) : (encode (pad t.hour 2)).length = 2 :=
  length_encode_pad Nat.two_pos (by have := t.hour_le; omega)

theorem length_min (t : Stamp) : (encode (pad t.min 2)).length = 2 :=
  length_encode_pad Nat.two_pos (by have := t.min_le; omega)

theorem length_sec (t : Stamp) : (encode (pad t.sec 2)).length = 2 :=
  length_encode_pad Nat.two_pos (by have := t.sec_le; omega)

theorem length_dash : (encode ['-']).length = 1 := rfl

theorem length_colon : (encode [':']).length = 1 := rfl

/-- The fields at their places. -/
theorem at_text (t : Stamp) {bytes : List UInt8} :
    At bytes 0 t.text ↔ At bytes 0 (pad t.year 4) ∧ At bytes 4 ['-'] ∧ At bytes 5 (pad t.month 2) ∧ At bytes 7 ['-'] ∧
      At bytes 8 (pad t.day 2) ∧ At bytes 10 [t.sep] ∧ At bytes 11 (pad t.hour 2) ∧ At bytes 13 [':'] ∧
      At bytes 14 (pad t.min 2) ∧ At bytes 16 [':'] ∧ At bytes 17 (pad t.sec 2) := by
  simp only [text, at_append, encode_append, List.length_append, length_year, length_month, length_day, length_sep,
    length_hour, length_min, length_dash, length_colon, Nat.zero_add, Nat.reduceAdd, and_assoc]

theorem length_text (t : Stamp) : (encode t.text).length = 19 := by
  simp only [text, encode_append, List.length_append, length_year, length_month, length_day, length_sep, length_hour,
    length_min, length_sec, length_dash, length_colon]

end Stamp

theorem index_byte_eq_ok {bytes : List UInt8} {i : Nat} {c : Char} (hc : c.toNat < 0x80) :
    index bytes i = .ok (byte c) ↔ At bytes i [c] := by
  rw [index_eq_ok, at_singleton hc]
  rfl

/-- The parser reads the fields of a stamp, a fraction and a zone. -/
theorem parse_fields {bytes : List UInt8} {ms : Nat} (h : parseIso8601ToEpochMs bytes = .ok ms) :
    ∃ (t : Stamp) (off : Int), At bytes 0 t.text ∧ tzOffsetSecs bytes (fraction bytes).1 = .ok off ∧
      (daysFromCivil t.year t.month t.day * 86400 + t.hour * 3600 + t.min * 60 + t.sec - off) * 1000 +
        (fraction bytes).2 = ms := by
  unfold parseIso8601ToEpochMs at h
  generalize fraction bytes = frac at h ⊢
  obtain ⟨idx, millis⟩ := frac
  split at h
  · cases h
  obtain ⟨b4, h4, h⟩ := bind_eq_ok.mp h
  obtain ⟨b7, h7, h⟩ := bind_eq_ok.mp h
  obtain ⟨b13, h13, h⟩ := bind_eq_ok.mp h
  obtain ⟨b16, h16, h⟩ := bind_eq_ok.mp h
  split at h
  · cases h
  rename_i hseps
  simp only [not_or, ne_eq, Decidable.not_not] at hseps
  obtain ⟨hb4, hb7, hb13, hb16⟩ := hseps
  rw [hb4] at h4
  rw [hb7] at h7
  rw [hb13] at h13
  rw [hb16] at h16
  obtain ⟨b10, h10, h⟩ := bind_eq_ok.mp h
  split at h
  · cases h
  rename_i hsep
  obtain ⟨c, hc, hb10⟩ : ∃ c ∈ ['T', 't', ' '], b10 = byte c := by simpa using Decidable.not_not.mp hsep
  rw [hb10] at h10
  have hascii := sep_ascii hc
  obtain ⟨year, hyear, h⟩ := bind_eq_ok.mp h
  obtain ⟨month, hmonth, h⟩ := bind_eq_ok.mp h
  obtain ⟨day, hday, h⟩ := bind_eq_ok.mp h
  obtain ⟨hour, hhour, h⟩ := bind_eq_ok.mp h
  obtain ⟨min, hmin, h⟩ := bind_eq_ok.mp h
  obtain ⟨sec, hsec, h⟩ := bind_eq_ok.mp h
  split at h
  · cases h
  rename_i hrange
  obtain ⟨off, hoff, h⟩ := bind_eq_ok.mp h
  dsimp only at h
  split at h
  · cases h
  rename_i hpos
  rw [four_eq_ok] at hyear
  rw [two_eq_ok] at hmonth hday hhour hmin hsec
  refine ⟨{ year, month, day, sep := c, hour, min, sec, year_lt := hyear.1, month_range := by omega,
            day_range := by omega, sep_mem := hc, hour_le := by omega, min_le := by omega, sec_le := by omega },
    off, ?_, hoff, ?_⟩
  · rw [Stamp.at_text]
    exact ⟨hyear.2, (index_byte_eq_ok (by decide)).mp h4, hmonth.2, (index_byte_eq_ok (by decide)).mp h7, hday.2,
      (index_byte_eq_ok hascii).mp h10, hhour.2, (index_byte_eq_ok (by decide)).mp h13, hmin.2,
      (index_byte_eq_ok (by decide)).mp h16, hsec.2⟩
  · dsimp only
    cases h
    exact (Int.toNat_of_nonneg (by omega)).symm

/-- What the parser makes of a stamp and a zone. -/
theorem parse_of_fields {bytes : List UInt8} {t : Stamp} {off : Int} (ht : At bytes 0 t.text)
    (hoff : tzOffsetSecs bytes (fraction bytes).1 = .ok off) {ms : Nat}
    (hms : (daysFromCivil t.year t.month t.day * 86400 + t.hour * 3600 + t.min * 60 + t.sec - off) * 1000 +
      (fraction bytes).2 = ms) : parseIso8601ToEpochMs bytes = .ok ms := by
  have hday := t.day_range
  have hmonth := t.month_range
  have hhour := t.hour_le
  have hmin := t.min_le
  have hsec := t.sec_le
  rw [Stamp.at_text] at ht
  obtain ⟨aYear, a4, aMonth, a7, aDay, a10, aHour, a13, aMin, a16, aSec⟩ := ht
  have hlen : 19 ≤ bytes.length := by
    have := aSec.length_le
    rw [length_encode_pad Nat.two_pos (by omega), List.length_drop] at this
    omega
  have hsep : byte t.sep ∈ [byte 'T', byte 't', byte ' '] := List.mem_map_of_mem (f := byte) t.sep_mem
  have hyear := four_eq_ok.mpr ⟨t.year_lt, aYear⟩
  have hmonth' := two_eq_ok.mpr ⟨by omega, aMonth⟩
  have hday' := two_eq_ok.mpr ⟨by omega, aDay⟩
  have hhour' := two_eq_ok.mpr ⟨by omega, aHour⟩
  have hmin' := two_eq_ok.mpr ⟨by omega, aMin⟩
  have hsec' := two_eq_ok.mpr ⟨by omega, aSec⟩
  unfold parseIso8601ToEpochMs
  simp only [(index_byte_eq_ok (by decide)).mpr a4, (index_byte_eq_ok (by decide)).mpr a7,
    (index_byte_eq_ok (sep_ascii t.sep_mem)).mpr a10, (index_byte_eq_ok (by decide)).mpr a13,
    (index_byte_eq_ok (by decide)).mpr a16, hyear, hmonth', hday', hhour', hmin', hsec', ok_bind, hsep]
  rw [if_neg (by omega), if_neg (by simp), if_neg (by simp), if_neg (by omega), hoff, ok_bind, hms, if_neg (by omega),
    Int.toNat_natCast]

theorem instantMs_eq (t : Stamp) (frac : Option Str) (off : Int) :
    (daysFromCivil t.year t.month t.day * 86400 + t.hour * 3600 + t.min * 60 + t.sec - off) * 1000 +
      fractionMillis frac = instantMs t frac off := by
  rw [instantMs, daysFromCivil_eq t.year t.month_range t.day_range.1]

/-- Where the parser looks for the fraction and for the zone. -/
theorem Splits.drop {s : Str} {t : Stamp} {frac : Option Str} {rest : Str} (h : Splits s t frac rest) :
    (encode s).drop 19 = encode (fractionText frac ++ rest) ∧
      (encode s).drop (19 + (fractionText frac).length) = encode rest := by
  have hfrac : ∀ c ∈ fractionText frac, c.toNat < 0x80 := by
    cases frac with
    | none => simp [fractionText]
    | some ds =>
      intro c hc
      rcases List.mem_cons.mp hc with rfl | hc
      · decide
      · exact isDigit_ascii (h.digits ds rfl c hc)
  have htext : (encode s).drop 19 = encode (fractionText frac ++ rest) := by
    rw [h.text, encode_append, ← t.length_text, List.drop_left]
  refine ⟨htext, ?_⟩
  rw [← length_encode_ascii hfrac]
  exact drop_rest htext

/-- **The strings that the parser takes, and the instants it takes them for.** -/
theorem parse_eq_ok_iff {s : Str} {ms : Nat} : parseIso8601ToEpochMs (encode s) = .ok ms ↔
    ∃ t frac tail off, Splits s t frac tail ∧ Tail tail off ∧ instantMs t frac off = ms := by
  constructor
  · intro h
    obtain ⟨t, off, ht, hoff, hms⟩ := parse_fields h
    obtain ⟨r, hr⟩ := at_encode.mp ht
    obtain ⟨frac, tail, rfl, hds, hstop⟩ := exists_stops r
    have hsplits : Splits s t frac tail := ⟨hr.symm, hds⟩
    rw [fraction_eq hsplits.drop.1 hds hstop] at hoff hms
    exact ⟨t, frac, tail, off, hsplits, (tzOffsetSecs_eq_ok hsplits.drop.2).mp hoff, (instantMs_eq t frac off).symm.trans hms⟩
  · rintro ⟨t, frac, tail, off, hsplits, htail, hms⟩
    have hfrac := fraction_eq hsplits.drop.1 hsplits.digits (htail.stops frac)
    refine @parse_of_fields _ t off (at_encode.mpr ⟨_, hsplits.text.symm⟩) ?_ _ ?_
    · rw [hfrac]
      exact (tzOffsetSecs_eq_ok hsplits.drop.2).mpr htail
    · rw [hfrac]
      exact (instantMs_eq t frac off).trans hms

theorem Tail.unique {tail : Str} {off off' : Int} (h : Tail tail off) (h' : Tail tail off') : off = off' := by
  have hdrop : (encode tail).drop 0 = encode tail := rfl
  have hok := (tzOffsetSecs_eq_ok hdrop).mpr h
  rw [(tzOffsetSecs_eq_ok hdrop).mpr h'] at hok
  exact (Except.ok.inj hok).symm

theorem Stamp.unique {bytes : List UInt8} {t t' : Stamp} (h : At bytes 0 t.text) (h' : At bytes 0 t'.text) : t = t' := by
  have htwo : ∀ {i n n' : Nat}, At bytes i (pad n 2) → At bytes i (pad n' 2) → n < 100 → n' < 100 → n = n' := by
    intro i n n' hn hn' hlt hlt'
    exact Except.ok.inj ((two_eq_ok.mpr ⟨hlt, hn⟩).symm.trans (two_eq_ok.mpr ⟨hlt', hn'⟩))
  obtain ⟨hyear, -, hmonth, -, hday, hsep, hhour, -, hmin, -, hsec⟩ := t.at_text.mp h
  obtain ⟨hyear', -, hmonth', -, hday', hsep', hhour', -, hmin', -, hsec'⟩ := t'.at_text.mp h'
  ext1
  · exact Except.ok.inj ((four_eq_ok.mpr ⟨t.year_lt, hyear⟩).symm.trans (four_eq_ok.mpr ⟨t'.year_lt, hyear'⟩))
  · exact htwo hmonth hmonth' (by have := t.month_range; omega) (by have := t'.month_range; omega)
  · exact htwo hday hday' (by have := t.day_range; omega) (by have := t'.day_range; omega)
  · rw [at_singleton (sep_ascii t.sep_mem)] at hsep
    rw [at_singleton (sep_ascii t'.sep_mem), hsep, Option.some.injEq] at hsep'
    have hval := congrArg UInt8.toNat hsep'
    have hlt := sep_ascii t.sep_mem
    have hlt' := sep_ascii t'.sep_mem
    rw [toNat_ofNat_of_lt (by omega), toNat_ofNat_of_lt (by omega)] at hval
    exact Char.toNat_inj.mp hval
  · exact htwo hhour hhour' (by have := t.hour_le; omega) (by have := t'.hour_le; omega)
  · exact htwo hmin hmin' (by have := t.min_le; omega) (by have := t'.min_le; omega)
  · exact htwo hsec hsec' (by have := t.sec_le; omega) (by have := t'.sec_le; omega)

/-- A string splits in one way. -/
theorem Splits.unique {s : Str} {t t' : Stamp} {frac frac' : Option Str} {tail tail' : Str} (h : Splits s t frac tail)
    (h' : Splits s t' frac' tail') (hstop : Stops frac tail) (hstop' : Stops frac' tail') :
    t = t' ∧ frac = frac' ∧ tail = tail' := by
  refine ⟨Stamp.unique (at_encode.mpr ⟨_, h.text.symm⟩) (at_encode.mpr ⟨_, h'.text.symm⟩), ?_⟩
  have hlen := (fraction_eq h.drop.1 h.digits hstop).symm.trans (fraction_eq h'.drop.1 h'.digits hstop')
  have htext := congrArg decode (h.drop.1.symm.trans h'.drop.1)
  rw [decode_encode, decode_encode] at htext
  obtain ⟨hfrac, htail⟩ := List.append_inj htext (by have := congrArg Prod.fst hlen; dsimp only at this; omega)
  refine ⟨?_, htail⟩
  cases frac <;> cases frac' <;> simp_all [fractionText]

theorem Deviates.not_parsesExactly {s : Str} : Deviates s → ¬ ParsesExactly s := by
  rintro ⟨t, frac, tail, off, hsplits, htail, hpos, hdev⟩ h
  have hok := parse_eq_ok_iff.mpr ⟨t, frac, tail, off, hsplits, htail, (Int.toNat_of_nonneg hpos).symm⟩
  obtain ⟨t', frac', zone, off', hsplits', hne, hzone, hday, -⟩ := (h.exact _).mp hok
  obtain ⟨rfl, rfl, rfl⟩ := hsplits.unique hsplits' (htail.stops _) (hzone.tail.stops _)
  rcases hdev with hdev | hdev | hdev
  · exact hdev hday
  · exact hne hdev
  · exact hdev ⟨off', hzone⟩

theorem parsesExactly_of_not_deviates {s : Str} (hdev : ¬ Deviates s) : ParsesExactly s := by
  refine ⟨parse_inRange _, fun ms => parse_eq_ok_iff.trans ⟨?_, ?_⟩⟩
  · rintro ⟨t, frac, tail, off, hsplits, htail, hms⟩
    have hstrict : ¬ (¬ t.DayExists ∨ frac = some [] ∨ ¬ ∃ off, Zone tail off) := fun h =>
      hdev ⟨t, frac, tail, off, hsplits, htail, by omega, h⟩
    simp only [not_or] at hstrict
    obtain ⟨hday, hne, hzone⟩ := hstrict
    obtain ⟨off', hzone⟩ := Classical.not_not.mp hzone
    rw [htail.unique hzone.tail] at hms
    exact ⟨t, frac, tail, off', hsplits, hne, hzone, Classical.not_not.mp hday, hms⟩
  · rintro ⟨t, frac, zone, off, hsplits, -, hzone, -, hms⟩
    exact ⟨t, frac, zone, off, hsplits, hzone.tail, hms⟩

/-- **The parser is exact on the strings that do not deviate** from the grammar in a way it does not see, and on no
other. -/
theorem parsesExactly_iff (s : Str) : ParsesExactly s ↔ ¬ Deviates s :=
  ⟨fun h hdev => hdev.not_parsesExactly h, parsesExactly_of_not_deviates⟩

/-- Midnight of the thirty-first of February. -/
def february : Stamp where
  year := 2024
  month := 2
  day := 31
  sep := 'T'
  hour := 0
  min := 0
  sec := 0
  year_lt := by decide
  month_range := by decide
  day_range := by decide
  sep_mem := by decide
  hour_le := by decide
  min_le := by decide
  sec_le := by decide

/-- The parser takes it for the second of March. -/
theorem february_not_parsesExactly : ¬ ParsesExactly "2024-02-31T00:00:00Z".toList := by
  have hsplits : Splits "2024-02-31T00:00:00Z".toList february none ['Z'] := ⟨by decide, by simp⟩
  refine Deviates.not_parsesExactly ⟨february, none, ['Z'], 0, hsplits, .utc (.inl rfl) [], ?_, .inl ?_⟩
  · rw [← instantMs_eq]
    decide
  · intro h
    exact absurd h.2.2.2 (by decide)

end Unimatrix.Distill
