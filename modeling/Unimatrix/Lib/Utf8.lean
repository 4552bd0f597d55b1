import Mathlib.Data.List.Basic
import Mathlib.Tactic.Ring

/-!
# Reading UTF-8 with replacement

The decoder that replaces what is not UTF-8: a byte that cannot go on with the sequence begun ends it with U+FFFD and
is read again as a first byte, and so does the end of the input. Between two bytes it is nowhere (`none`) or has begun
a sequence (`some p`); `p.lower` and `p.upper` bound the byte that can come next.

`decode` reads a whole input. Read in two parts, `decode xs ++ decode ys` is the same text unless `xs` ends within a
sequence that `ys` goes on with (`Cuts`): **`decode_append`**, and **`decode_append_cut`** for what is read then.
-/

namespace Utf8

/-- A sequence that has begun: how many bytes are missing, its value so far, and the bounds of the next byte. -/
structure Pending where
  needed : Nat
  value : Nat
  lower : Nat
  upper : Nat
  deriving DecidableEq, Repr

/-- U+FFFD. -/
def replacement : Char := '\uFFFD'

/-- Read a byte between two characters. -/
def start (b : UInt8) : List Char × Option Pending :=
  let v := b.toNat
  if v ≤ 0x7F then ([Char.ofNat v], none)
  else if 0xC2 ≤ v ∧ v ≤ 0xDF then ([], some ⟨1, v - 0xC0, 0x80, 0xBF⟩)
  else if 0xE0 ≤ v ∧ v ≤ 0xEF then
    ([], some ⟨2, v - 0xE0, if v = 0xE0 then 0xA0 else 0x80, if v = 0xED then 0x9F else 0xBF⟩)
  else if 0xF0 ≤ v ∧ v ≤ 0xF4 then
    ([], some ⟨3, v - 0xF0, if v = 0xF0 then 0x90 else 0x80, if v = 0xF4 then 0x8F else 0xBF⟩)
  else ([replacement], none)

/-- The sequence goes on with `b`. -/
def Pending.accepts (p : Pending) (b : UInt8) : Bool := decide (p.lower ≤ b.toNat ∧ b.toNat ≤ p.upper)

/-- Read a byte that the sequence goes on with. -/
def Pending.next (p : Pending) (b : UInt8) : List Char × Option Pending :=
  let value := p.value * 64 + (b.toNat - 0x80)
  if p.needed ≤ 1 then ([Char.ofNat value], none) else ([], some ⟨p.needed - 1, value, 0x80, 0xBF⟩)

/-- Read a byte. -/
def step : Option Pending → UInt8 → List Char × Option Pending
  | none, b => start b
  | some p, b => if p.accepts b then p.next b else (replacement :: (start b).1, (start b).2)

/-- The end of the input. -/
def flush : Option Pending → List Char
  | none => []
  | some _ => [replacement]

/-- Read on, and end. -/
def decodeFrom : Option Pending → List UInt8 → List Char
  | s, [] => flush s
  | s, b :: bs => (step s b).1 ++ decodeFrom (step s b).2 bs

/-- Read an input. -/
def decode (bs : List UInt8) : List Char := decodeFrom none bs

/-- Where the decoder is after some bytes. -/
def stateAfter (s : Option Pending) (bs : List UInt8) : Option Pending :=
  bs.foldl (fun s b => (step s b).2) s

/-- What it has written by then. -/
def written : Option Pending → List UInt8 → List Char
  | _, [] => []
  | s, b :: bs => (step s b).1 ++ written (step s b).2 bs

theorem decodeFrom_cons (s : Option Pending) (b : UInt8) (bs : List UInt8) :
    decodeFrom s (b :: bs) = (step s b).1 ++ decodeFrom (step s b).2 bs := rfl

theorem decodeFrom_append (s : Option Pending) (xs ys : List UInt8) :
    decodeFrom s (xs ++ ys) = written s xs ++ decodeFrom (stateAfter s xs) ys := by
  induction xs generalizing s with
  | nil => rfl
  | cons b xs ih =>
    rw [List.cons_append, decodeFrom_cons, ih, ← List.append_assoc]
    rfl

theorem decodeFrom_eq (s : Option Pending) (xs : List UInt8) :
    decodeFrom s xs = written s xs ++ flush (stateAfter s xs) := by
  have h := decodeFrom_append s xs []
  rw [List.append_nil] at h
  exact h

/-! ## Sequences that can occur -/

/-- The next byte is a continuation byte, and the character is none of ASCII. -/
structure Pending.Sound (p : Pending) : Prop where
  lower : 0x80 ≤ p.lower
  upper : p.upper ≤ 0xBF
  value : 0x80 ≤ p.value * 64 ^ p.needed + (p.lower - 0x80) * 64 ^ (p.needed - 1)

/-- A sequence that can occur, or none. -/
def SoundState (s : Option Pending) : Prop := ∀ p ∈ s, p.Sound

theorem start_sound (b : UInt8) : SoundState (start b).2 := by
  unfold start SoundState
  simp only
  split
  · exact fun p hp => by cases hp
  split
  · intro p hp
    cases hp
    exact ⟨le_rfl, le_rfl, by simp only; omega⟩
  split
  · intro p hp
    cases hp
    refine ⟨?_, ?_, ?_⟩ <;> simp only <;> split <;> omega
  split
  · intro p hp
    cases hp
    refine ⟨?_, ?_, ?_⟩ <;> simp only <;> split <;> omega
  · exact fun p hp => by cases hp

theorem Pending.Sound.next {p : Pending} (h : p.Sound) {b : UInt8} (hb : p.accepts b) :
    SoundState (p.next b).2 := by
  unfold Pending.next
  simp only
  split
  · exact fun q hq => by cases hq
  · rename_i hneeded
    intro q hq
    cases hq
    refine ⟨le_rfl, le_rfl, ?_⟩
    obtain ⟨hl, -⟩ := of_decide_eq_true hb
    have hlower := h.lower
    have hvalue := h.value
    obtain ⟨n, hn⟩ := Nat.exists_eq_add_of_lt (not_le.mp hneeded)
    have hsucc : p.needed = (p.needed - 1) + 1 := by omega
    simp only [Nat.sub_self, Nat.zero_mul, Nat.add_zero]
    calc 0x80 ≤ p.value * 64 ^ p.needed + (p.lower - 0x80) * 64 ^ (p.needed - 1) := hvalue
      _ = (p.value * 64 + (p.lower - 0x80)) * 64 ^ (p.needed - 1) := by
        conv_lhs => rw [hsucc, Nat.pow_succ]
        rw [Nat.add_sub_cancel]
        ring
      _ ≤ (p.value * 64 + (b.toNat - 0x80)) * 64 ^ (p.needed - 1) :=
        Nat.mul_le_mul_right _ (by omega)

theorem step_sound {s : Option Pending} (h : SoundState s) (b : UInt8) : SoundState (step s b).2 := by
  cases s with
  | none => exact start_sound b
  | some p =>
    simp only [step]
    split
    · rename_i hb
      exact (h p rfl).next hb
    · exact start_sound b

theorem stateAfter_sound {s : Option Pending} (h : SoundState s) (bs : List UInt8) :
    SoundState (stateAfter s bs) := by
  induction bs generalizing s with
  | nil => exact h
  | cons b bs ih => exact ih (step_sound h b)

theorem start_of_continuation {b : UInt8} (hl : 0x80 ≤ b.toNat) (hu : b.toNat ≤ 0xBF) :
    start b = ([replacement], none) := by
  unfold start
  simp only
  rw [if_neg (by omega), if_neg (by omega), if_neg (by omega), if_neg (by omega)]

/-- A character outside ASCII is no line break. -/
theorem ofNat_ne {v : Nat} (h : 0x80 ≤ v) : Char.ofNat v ≠ '\r' ∧ Char.ofNat v ≠ '\n' := by
  by_cases hv : v.isValidChar
  · have hto : (Char.ofNat v).toNat = v := by
      rw [Char.ofNat, dif_pos hv]
      rfl
    refine ⟨fun he => ?_, fun he => ?_⟩ <;>
    · rw [he] at hto
      exact absurd hto (by simp; omega)
  · rw [Char.ofNat, dif_neg hv]
    decide

/-! ## Cutting the input -/

/-- The input is cut within a sequence: `xs` ends in one that `ys` goes on with. -/
def Cuts (xs ys : List UInt8) : Bool :=
  match stateAfter none xs, ys with
  | some p, b :: _ => p.accepts b
  | _, _ => false

/-- **Cut between two sequences, an input is read in parts.** -/
theorem decode_append {xs ys : List UInt8} (h : Cuts xs ys = false) :
    decode (xs ++ ys) = decode xs ++ decode ys := by
  unfold decode
  rw [decodeFrom_append, decodeFrom_eq none xs, List.append_assoc]
  congr 1
  unfold Cuts at h
  cases hs : stateAfter none xs with
  | none => rfl
  | some p =>
    rw [hs] at h
    cases ys with
    | nil => rfl
    | cons b ys =>
      have hb : p.accepts b = false := h
      rw [decodeFrom_cons]
      simp only [step, hb, Bool.false_eq_true, if_false]
      rfl

/-- A sequence read from its middle: each byte that belongs to it is replaced. -/
theorem decodeFrom_middle {p : Pending} (h : p.Sound) (ys : List UInt8) :
    ∃ c k post, decodeFrom (some p) ys = c :: post ∧
      decodeFrom none ys = List.replicate k replacement ++ post ∧ c ≠ '\r' ∧ c ≠ '\n' ∧
      ∀ b ys', ys = b :: ys' → p.accepts b → 0 < k := by
  induction ys generalizing p with
  | nil =>
    exact ⟨replacement, 0, [], rfl, rfl, by decide, by decide, fun b ys' h => by cases h⟩
  | cons b ys ih =>
    rw [decodeFrom_cons, decodeFrom_cons none]
    cases hb : p.accepts b with
    | false =>
      simp only [step, hb, Bool.false_eq_true, if_false]
      refine ⟨replacement, 0, _, rfl, rfl, by decide, by decide, fun b' ys' he hacc => ?_⟩
      cases he
      rw [hb] at hacc
      cases hacc
    | true =>
      obtain ⟨hl, hu⟩ := of_decide_eq_true hb
      have hlower := h.lower
      have hstart := start_of_continuation (hlower.trans hl) (hu.trans h.upper)
      simp only [step, hb, if_true, hstart]
      by_cases hneeded : p.needed ≤ 1
      · have hnext : p.next b = ([Char.ofNat (p.value * 64 + (b.toNat - 0x80))], none) := by
          unfold Pending.next
          simp only
          rw [if_pos hneeded]
        have hvalue : 0x80 ≤ p.value * 64 + (b.toNat - 0x80) := by
          have hv := h.value
          obtain hn | hn : p.needed = 0 ∨ p.needed = 1 := by omega
          · rw [hn] at hv
            simp only [Nat.pow_zero, Nat.mul_one, Nat.zero_sub] at hv
            omega
          · rw [hn] at hv
            simp only [Nat.pow_one, Nat.sub_self, Nat.pow_zero, Nat.mul_one] at hv
            omega
        rw [hnext]
        exact ⟨_, 1, decodeFrom none ys, rfl, rfl, (ofNat_ne hvalue).1, (ofNat_ne hvalue).2,
          fun _ _ _ _ => Nat.one_pos⟩
      · have hsound := h.next hb
        have hnext : p.next b =
            ([], some ⟨p.needed - 1, p.value * 64 + (b.toNat - 0x80), 0x80, 0xBF⟩) := by
          unfold Pending.next
          simp only
          rw [if_neg hneeded]
        rw [hnext] at hsound ⊢
        obtain ⟨c, k, post, hc, hk, hr, hn, -⟩ := ih (hsound _ rfl)
        exact ⟨c, k + 1, post, hc, by rw [hk]; rfl, hr, hn, fun _ _ _ _ => Nat.succ_pos k⟩

/-- **Cut within a sequence, more characters are read**: one that is no line break becomes two or more. -/
theorem decode_append_cut {xs ys : List UInt8} (h : Cuts xs ys) :
    ∃ pre c k post, decode (xs ++ ys) = pre ++ c :: post ∧
      decode xs ++ decode ys = pre ++ List.replicate (k + 2) replacement ++ post ∧
      c ≠ '\r' ∧ c ≠ '\n' := by
  unfold Cuts at h
  cases hs : stateAfter none xs with
  | none =>
    rw [hs] at h
    cases h
  | some p =>
    cases ys with
    | nil =>
      rw [hs] at h
      cases h
    | cons b ys =>
      rw [hs] at h
      have hsound : p.Sound := stateAfter_sound (fun q hq => by cases hq) xs p hs
      obtain ⟨c, k, post, hc, hk, hr, hn, hpos⟩ := decodeFrom_middle hsound (b :: ys)
      obtain ⟨k, rfl⟩ := Nat.exists_eq_add_of_lt (hpos b ys rfl h)
      refine ⟨written none xs, c, k, post, ?_, ?_, hr, hn⟩
      · unfold decode
        rw [decodeFrom_append, hs, hc]
      · unfold decode
        rw [decodeFrom_eq none xs, hs, hk, Nat.zero_add, List.append_assoc, List.append_assoc]
        rfl

end Utf8
