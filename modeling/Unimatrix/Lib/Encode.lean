import Mathlib.Order.Bounds.Defs
import Unimatrix.Lib.Utf8

/-!
# UTF-8 texts and where they can be cut

`encode` writes a text, `decode` reads it back (**`decode_encode_append`**, whatever follows). The first bytes of a
text are whole characters and one of which at least a byte is there (`take_encode`); what follows them is the end of
that character and whole characters (`drop_encode`). `Boundary cs n`: the first `n` bytes are whole characters.
-/

namespace Utf8

/-! ## Encoding -/

/-- The bytes of a text. -/
def encode (cs : List Char) : List UInt8 := cs.flatMap String.utf8EncodeChar

@[simp] theorem encode_nil : encode [] = [] := rfl

theorem encode_cons (c : Char) (cs : List Char) :
    encode (c :: cs) = String.utf8EncodeChar c ++ encode cs := List.flatMap_cons

theorem encode_append (xs ys : List Char) : encode (xs ++ ys) = encode xs ++ encode ys :=
  List.flatMap_append

/-- A byte that goes on with a sequence. -/
def IsContinuation (b : UInt8) : Prop := 0x80 ≤ b.toNat ∧ b.toNat ≤ 0xBF

/-- The bytes of a character: the first tells their number, the others are continuation bytes. -/
structure Sequence (b : UInt8) (t : List UInt8) : Prop where
  continuation : ∀ x ∈ t, IsContinuation x
  first : (b.toNat < 0x80 ∧ t.length = 0) ∨ (0xC0 ≤ b.toNat ∧ b.toNat < 0xE0 ∧ t.length = 1) ∨
    (0xE0 ≤ b.toNat ∧ b.toNat < 0xF0 ∧ t.length = 2) ∨ (0xF0 ≤ b.toNat ∧ b.toNat < 0xF8 ∧ t.length = 3)

theorem Sequence.length_le {b : UInt8} {t : List UInt8} (h : Sequence b t) : t.length ≤ 3 := by
  have := h.first
  omega

theorem Sequence.not_continuation {b : UInt8} {t : List UInt8} (h : Sequence b t) : ¬ IsContinuation b := by
  have := h.first
  unfold IsContinuation
  omega

theorem char_valid (c : Char) : c.toNat ≤ 0xD7FF ∨ 0xE000 ≤ c.toNat ∧ c.toNat ≤ 0x10FFFF := by
  rcases c.valid with h | h
  · exact .inl (Nat.le_of_lt_succ h)
  · exact .inr ⟨Nat.succ_le_of_lt h.1, Nat.le_of_lt_succ h.2⟩

theorem toNat_ofNat_of_lt {n : Nat} (h : n < 256) : (UInt8.ofNat n).toNat = n := by
  rw [UInt8.toNat_ofNat']
  exact Nat.mod_eq_of_lt h

/-- The bytes of a character, by their number. -/
inductive Encoded (c : Char) : List UInt8 → Prop
  | one {x : UInt8} (hc : c.toNat ≤ 0x7F) (hx : x.toNat = c.toNat) : Encoded c [x]
  | two {x y : UInt8} (hc : 0x80 ≤ c.toNat ∧ c.toNat ≤ 0x7FF) (hx : x.toNat = c.toNat / 64 + 0xC0)
      (hy : y.toNat = c.toNat % 64 + 0x80) : Encoded c [x, y]
  | three {x y z : UInt8} (hc : 0x800 ≤ c.toNat ∧ c.toNat ≤ 0xFFFF)
      (hx : x.toNat = c.toNat / 4096 + 0xE0) (hy : y.toNat = c.toNat / 64 % 64 + 0x80)
      (hz : z.toNat = c.toNat % 64 + 0x80) : Encoded c [x, y, z]
  | four {x y z w : UInt8} (hc : 0x10000 ≤ c.toNat) (hx : x.toNat = c.toNat / 262144 + 0xF0)
      (hy : y.toNat = c.toNat / 4096 % 64 + 0x80) (hz : z.toNat = c.toNat / 64 % 64 + 0x80)
      (hw : w.toNat = c.toNat % 64 + 0x80) : Encoded c [x, y, z, w]

theorem encoded_encodeChar (c : Char) : Encoded c (String.utf8EncodeChar c) := by
  have hvalid := char_valid c
  have hval : c.val.toNat = c.toNat := rfl
  unfold String.utf8EncodeChar
  simp only [hval]
  split
  · exact .one (by omega) (toNat_ofNat_of_lt (by omega))
  split
  · refine .two (by omega) ?_ (toNat_ofNat_of_lt (by omega))
    rw [toNat_ofNat_of_lt (by omega)]
    omega
  split
  · refine .three (by omega) ?_ (toNat_ofNat_of_lt (by omega)) (toNat_ofNat_of_lt (by omega))
    rw [toNat_ofNat_of_lt (by omega)]
    omega
  · refine .four (by omega) ?_ (toNat_ofNat_of_lt (by omega)) (toNat_ofNat_of_lt (by omega))
      (toNat_ofNat_of_lt (by omega))
    rw [toNat_ofNat_of_lt (by omega)]
    omega

theorem Encoded.sequence {c : Char} {bs : List UInt8} (h : Encoded c bs) :
    ∃ b t, bs = b :: t ∧ Sequence b t := by
  have hvalid := char_valid c
  cases h with
  | one hc hx => exact ⟨_, _, rfl, by simp, .inl ⟨by omega, rfl⟩⟩
  | two hc hx hy =>
    refine ⟨_, _, rfl, ?_, .inr (.inl ⟨by omega, by omega, rfl⟩)⟩
    simp only [List.mem_cons, List.not_mem_nil, or_false, forall_eq, IsContinuation]
    omega
  | three hc hx hy hz =>
    refine ⟨_, _, rfl, ?_, .inr (.inr (.inl ⟨by omega, by omega, rfl⟩))⟩
    simp only [List.mem_cons, List.not_mem_nil, or_false, forall_eq_or_imp, forall_eq, IsContinuation]
    omega
  | four hc hx hy hz hw =>
    refine ⟨_, _, rfl, ?_, .inr (.inr (.inr ⟨by omega, by omega, rfl⟩))⟩
    simp only [List.mem_cons, List.not_mem_nil, or_false, forall_eq_or_imp, forall_eq, IsContinuation]
    omega

/-- What a character is written as is a sequence. -/
theorem encodeChar_sequence (c : Char) : ∃ b t, String.utf8EncodeChar c = b :: t ∧ Sequence b t :=
  (encoded_encodeChar c).sequence

theorem length_encodeChar_le (c : Char) : (String.utf8EncodeChar c).length ≤ 4 := by
  obtain ⟨b, t, h, hseq⟩ := encodeChar_sequence c
  have := hseq.length_le
  rw [h, List.length_cons]
  omega

/-- A character of ASCII is one byte. -/
theorem length_encodeChar_ascii {c : Char} (h : c.toNat < 0x80) : (String.utf8EncodeChar c).length = 1 := by
  have henc := encoded_encodeChar c
  generalize String.utf8EncodeChar c = bs at henc ⊢
  cases henc with
  | one hc hx => rfl
  | two hc hx hy => omega
  | three hc hx hy hz => omega
  | four hc hx hy hz hw => omega

theorem length_encode_ascii {cs : List Char} (h : ∀ c ∈ cs, c.toNat < 0x80) : (encode cs).length = cs.length := by
  induction cs with
  | nil => rfl
  | cons c cs ih =>
    rw [encode_cons, List.length_append, length_encodeChar_ascii (h c List.mem_cons_self),
      ih fun d hd => h d (List.mem_cons_of_mem _ hd), List.length_cons, Nat.add_comm]

theorem length_encode_le (cs : List Char) : (encode cs).length ≤ 4 * cs.length := by
  induction cs with
  | nil => exact Nat.le_refl _
  | cons c cs ih =>
    have := length_encodeChar_le c
    rw [encode_cons, List.length_append, List.length_cons]
    omega

/-! ## Reading back -/

/-- The last byte of a sequence. -/
theorem decodeFrom_last {v lower upper : Nat} {b : UInt8} (hl : lower ≤ b.toNat) (hu : b.toNat ≤ upper)
    (rest : List UInt8) : decodeFrom (some ⟨1, v, lower, upper⟩) (b :: rest) =
      Char.ofNat (v * 64 + (b.toNat - 0x80)) :: decodeFrom none rest := by
  have hb : (⟨1, v, lower, upper⟩ : Pending).accepts b = true := decide_eq_true ⟨hl, hu⟩
  rw [decodeFrom_cons]
  simp only [step, hb, if_true]
  rfl

/-- A byte before the last. -/
theorem decodeFrom_next {n v lower upper : Nat} {b : UInt8} (hl : lower ≤ b.toNat) (hu : b.toNat ≤ upper)
    (rest : List UInt8) : decodeFrom (some ⟨n + 2, v, lower, upper⟩) (b :: rest) =
      decodeFrom (some ⟨n + 1, v * 64 + (b.toNat - 0x80), 0x80, 0xBF⟩) rest := by
  have hb : (⟨n + 2, v, lower, upper⟩ : Pending).accepts b = true := decide_eq_true ⟨hl, hu⟩
  rw [decodeFrom_cons]
  simp only [step, hb, if_true, Pending.next]
  rw [if_neg (by omega)]
  rfl

theorem Encoded.decode {c : Char} {bs : List UInt8} (h : Encoded c bs) (rest : List UInt8) :
    decode (bs ++ rest) = c :: decode rest := by
  have hvalid := char_valid c
  unfold Utf8.decode
  cases h with
  | @one x hc hx =>
    have hstart : start x = ([c], none) := by
      unfold start
      simp only
      rw [if_pos (by omega), hx, Char.ofNat_toNat]
    rw [List.singleton_append, decodeFrom_cons]
    simp only [step, hstart]
    rfl
  | @two x y hc hx hy =>
    have hstart : start x = ([], some ⟨1, x.toNat - 0xC0, 0x80, 0xBF⟩) := by
      unfold start
      simp only
      rw [if_neg (by omega), if_pos (by omega)]
    have hvalue : (x.toNat - 0xC0) * 64 + (y.toNat - 0x80) = c.toNat := by omega
    rw [List.cons_append, decodeFrom_cons]
    simp only [step, hstart]
    rw [List.nil_append, List.singleton_append, decodeFrom_last (by omega) (by omega), hvalue,
      Char.ofNat_toNat]
  | @three x y z hc hx hy hz =>
    have hstart : start x = ([], some ⟨2, x.toNat - 0xE0, if x.toNat = 0xE0 then 0xA0 else 0x80,
        if x.toNat = 0xED then 0x9F else 0xBF⟩) := by
      unfold start
      simp only
      rw [if_neg (by omega), if_neg (by omega), if_pos (by omega)]
    have hvalue : ((x.toNat - 0xE0) * 64 + (y.toNat - 0x80)) * 64 + (z.toNat - 0x80) = c.toNat := by
      omega
    rw [List.cons_append, decodeFrom_cons]
    simp only [step, hstart]
    rw [List.nil_append, List.cons_append, decodeFrom_next (by split <;> omega) (by split <;> omega),
      List.singleton_append, decodeFrom_last (by omega) (by omega), hvalue, Char.ofNat_toNat]
  | @four x y z w hc hx hy hz hw =>
    have hstart : start x = ([], some ⟨3, x.toNat - 0xF0, if x.toNat = 0xF0 then 0x90 else 0x80,
        if x.toNat = 0xF4 then 0x8F else 0xBF⟩) := by
      unfold start
      simp only
      rw [if_neg (by omega), if_neg (by omega), if_neg (by omega), if_pos (by omega)]
    have hvalue : (((x.toNat - 0xF0) * 64 + (y.toNat - 0x80)) * 64 + (z.toNat - 0x80)) * 64 +
        (w.toNat - 0x80) = c.toNat := by omega
    rw [List.cons_append, decodeFrom_cons]
    simp only [step, hstart]
    rw [List.nil_append, List.cons_append, decodeFrom_next (by split <;> omega) (by split <;> omega),
      List.cons_append, decodeFrom_next (by omega) (by omega), List.singleton_append,
      decodeFrom_last (by omega) (by omega), hvalue, Char.ofNat_toNat]

/-- **What is encoded is read back**, whatever follows. -/
theorem decode_encode_append (cs : List Char) (rest : List UInt8) :
    decode (encode cs ++ rest) = cs ++ decode rest := by
  induction cs with
  | nil => rfl
  | cons c cs ih =>
    rw [encode_cons, List.append_assoc, (encoded_encodeChar c).decode, ih, List.cons_append]

theorem decode_encode (cs : List Char) : decode (encode cs) = cs := by
  have h := decode_encode_append cs []
  rwa [List.append_nil, show decode [] = [] from rfl, List.append_nil] at h

/-- A byte that goes on with a sequence, where none has begun, is replaced. -/
theorem decode_continuation {b : UInt8} (hb : IsContinuation b) (bs : List UInt8) :
    decode (b :: bs) = replacement :: decode bs := by
  unfold decode
  rw [decodeFrom_cons]
  simp only [step, start_of_continuation hb.1 hb.2]
  rfl

/-- No text begins with one. -/
theorem not_continuation_of_encode {cs : List Char} {b : UInt8} {bs : List UInt8} (h : encode cs = b :: bs) :
    ¬ IsContinuation b := by
  cases cs with
  | nil => cases h
  | cons c cs =>
    obtain ⟨b', t, hc, hseq⟩ := encodeChar_sequence c
    rw [encode_cons, hc, List.cons_append] at h
    rw [← (List.cons.inj h).1]
    exact hseq.not_continuation

/-! ## Cutting what is encoded -/

/-- The first `n` bytes of a text: whole characters, and one of which at least a byte is there. -/
theorem take_encode {cs : List Char} {n : Nat} (hpos : 0 < n) (hn : n ≤ (encode cs).length) :
    ∃ pre c post u v, cs = pre ++ c :: post ∧ String.utf8EncodeChar c = u ++ v ∧ u ≠ [] ∧
      n = (encode pre).length + u.length := by
  induction cs generalizing n with
  | nil => exact absurd hn (by simp only [encode_nil, List.length_nil]; omega)
  | cons c cs ih =>
    rw [encode_cons, List.length_append] at hn
    by_cases hle : n ≤ (String.utf8EncodeChar c).length
    · refine ⟨[], c, cs, (String.utf8EncodeChar c).take n, (String.utf8EncodeChar c).drop n, rfl,
        (List.take_append_drop _ _).symm, ?_, ?_⟩
      · intro he
        have := congrArg List.length he
        rw [List.length_take, List.length_nil] at this
        omega
      · rw [List.length_take, encode_nil, List.length_nil]
        omega
    · obtain ⟨pre, d, post, u, v, rfl, hd, hu, hlen⟩ := ih (n := n - (String.utf8EncodeChar c).length)
        (by omega) (by omega)
      refine ⟨c :: pre, d, post, u, v, rfl, hd, hu, ?_⟩
      rw [encode_cons, List.length_append]
      omega

/-- The bytes of a text from `n` on: the end of a character, if it is cut, and whole characters. -/
theorem drop_encode (cs : List Char) {n : Nat} (hn : n ≤ (encode cs).length) :
    ∃ t pre post, cs = pre ++ post ∧ (encode cs).drop n = t ++ encode post ∧ t.length ≤ 3 ∧
      (∀ x ∈ t, IsContinuation x) ∧ n + t.length = (encode pre).length := by
  by_cases hpos : 0 < n
  · obtain ⟨pre, c, post, u, v, rfl, hc, hu, rfl⟩ := take_encode hpos hn
    obtain ⟨b, t, hbt, hseq⟩ := encodeChar_sequence c
    obtain ⟨b', u, rfl⟩ := List.exists_cons_of_ne_nil hu
    have hcons : b :: t = b' :: (u ++ v) := by rw [← hbt, hc, List.cons_append]
    obtain ⟨rfl, rfl⟩ := List.cons.inj hcons
    have hlen := hseq.length_le
    rw [List.length_append] at hlen
    refine ⟨v, pre ++ [c], post, by rw [List.append_assoc, List.singleton_append], ?_, by omega,
      fun x hx => hseq.continuation x (List.mem_append_right _ hx), ?_⟩
    · rw [encode_append, encode_cons, hc, List.append_assoc, ← List.append_assoc (encode pre),
        List.drop_append_of_le_length (by rw [List.length_append]),
        List.drop_of_length_le (by rw [List.length_append]), List.nil_append]
    · rw [encode_append, encode_cons, hc]
      simp only [List.length_append, List.length_cons, encode_nil, List.length_nil]
      omega
  · obtain rfl : n = 0 := by omega
    exact ⟨[], [], cs, rfl, rfl, by simp, by simp, rfl⟩

/-! ## Boundaries -/

/-- The first `n` bytes of the text are whole characters. -/
def Boundary (cs : List Char) (n : Nat) : Prop := ∃ pre post, cs = pre ++ post ∧ n = (encode pre).length

theorem boundary_zero (cs : List Char) : Boundary cs 0 := ⟨[], cs, rfl, rfl⟩

theorem Boundary.le {cs : List Char} {n : Nat} (h : Boundary cs n) : n ≤ (encode cs).length := by
  obtain ⟨pre, post, rfl, rfl⟩ := h
  rw [encode_append, List.length_append]
  exact Nat.le_add_right _ _

/-- What follows is a text. -/
theorem Boundary.drop {cs : List Char} {n : Nat} (h : Boundary cs n) : ∃ post, (encode cs).drop n = encode post := by
  obtain ⟨pre, post, rfl, rfl⟩ := h
  exact ⟨post, by rw [encode_append, List.drop_left]⟩

/-- A boundary up to a byte of a character is one up to its first byte. -/
theorem Boundary.le_of_lt {pre post : List Char} {c : Char} {n : Nat} (h : Boundary (pre ++ c :: post) n)
    (hn : n < (encode pre).length + (String.utf8EncodeChar c).length) : n ≤ (encode pre).length := by
  obtain ⟨pre', post', hsplit, rfl⟩ := h
  rcases List.append_eq_append_iff.mp hsplit with ⟨r, rfl, hr⟩ | ⟨r, rfl, hr⟩
  · rw [encode_append, List.length_append] at hn ⊢
    cases r with
    | nil => exact Nat.le_refl _
    | cons d r =>
      obtain ⟨rfl, -⟩ := List.cons.inj hr
      rw [encode_cons, List.length_append] at hn
      omega
  · rw [encode_append, List.length_append]
    exact Nat.le_add_right _ _

/-- **The last boundary up to a byte**: the end of its character if that is all there, else its beginning. -/
theorem isGreatest_boundary (pre post : List Char) {c : Char} {u v : List UInt8}
    (hc : String.utf8EncodeChar c = u ++ v) :
    IsGreatest {b | Boundary (pre ++ c :: post) b ∧ b ≤ (encode pre).length + u.length}
      (if v = [] then (encode pre).length + u.length else (encode pre).length) := by
  split
  · rename_i hv
    refine ⟨⟨⟨pre ++ [c], post, by rw [List.append_assoc, List.singleton_append], ?_⟩, le_rfl⟩,
      fun b hb => hb.2⟩
    rw [encode_append, encode_cons, hc, hv]
    simp only [List.length_append, encode_nil, List.length_nil, Nat.add_zero]
  · rename_i hv
    refine ⟨⟨⟨pre, c :: post, rfl, rfl⟩, Nat.le_add_right _ _⟩, fun b hb => hb.1.le_of_lt ?_⟩
    have := List.length_pos_iff.mpr hv
    have := hb.2
    rw [hc, List.length_append]
    omega

/-- A boundary is at most three bytes away. -/
theorem exists_boundary {cs : List Char} {n : Nat} (hn : n ≤ (encode cs).length) :
    ∃ b, Boundary cs b ∧ b ≤ n ∧ n ≤ b + 3 := by
  by_cases hpos : 0 < n
  · obtain ⟨pre, c, post, u, v, rfl, hc, -, rfl⟩ := take_encode hpos hn
    have hgreatest := isGreatest_boundary pre post hc
    refine ⟨_, hgreatest.1.1, hgreatest.1.2, ?_⟩
    have hlen := length_encodeChar_le c
    rw [hc, List.length_append] at hlen
    split
    · omega
    · rename_i hv
      have := List.length_pos_iff.mpr hv
      omega
  · exact ⟨0, boundary_zero cs, Nat.zero_le _, by omega⟩

end Utf8
