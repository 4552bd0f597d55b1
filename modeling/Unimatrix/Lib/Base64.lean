import Mathlib.Data.List.GetD

/-!
# Base64 for URLs

Bytes as characters of the alphabet for URLs, three bytes to four characters, without padding.

`decode` reads what `encode` writes and nothing else: a last character whose spare bits are not zero, padding and a
single character at the end are refused.

**`decode_eq_some_iff`**: `decode` and `encode` are inverse to each other.
-/

namespace Base64

/-- The characters for the numbers below 64. -/
def alphabet : List Char := "ABCDEFGHIJKLMNOPQRSTUVWXYZabcdefghijklmnopqrstuvwxyz0123456789-_".toList

/-- The character of a number below 64. -/
def digit (n : Nat) : Char := alphabet.getD n 'A'

/-- The number of a character. -/
def value (c : Char) : Option Nat := alphabet.findIdx? (· == c)

/-- The numbers below 64 that carry some bytes. -/
def sextets : List UInt8 → List Nat
  | [] => []
  | [a] => [a.toNat / 4, a.toNat % 4 * 16]
  | [a, b] => [a.toNat / 4, a.toNat % 4 * 16 + b.toNat / 16, b.toNat % 16 * 4]
  | a :: b :: c :: bytes =>
    a.toNat / 4 :: (a.toNat % 4 * 16 + b.toNat / 16) :: (b.toNat % 16 * 4 + c.toNat / 64) :: c.toNat % 64 ::
      sextets bytes

/-- The bytes that some numbers below 64 carry. -/
def octets : List Nat → Option (List UInt8)
  | [] => some []
  | [_] => none
  | [p, q] => if q % 16 = 0 then some [.ofNat (p * 4 + q / 16)] else none
  | [p, q, r] =>
    if r % 4 = 0 then some [.ofNat (p * 4 + q / 16), .ofNat (q % 16 * 16 + r / 4)] else none
  | p :: q :: r :: s :: rest =>
    (octets rest).map fun bytes =>
      .ofNat (p * 4 + q / 16) :: .ofNat (q % 16 * 16 + r / 4) :: .ofNat (r % 4 * 64 + s) :: bytes

/-- The characters of some bytes. -/
def encode (bytes : List UInt8) : List Char := (sextets bytes).map digit

/-- The bytes of some characters. -/
def decode (cs : List Char) : Option (List UInt8) := (cs.mapM value).bind octets

/-! ## Characters and numbers -/

theorem value_digit {n : Nat} (h : n < 64) : value (digit n) = some n := by
  have hall : ∀ m ∈ List.range 64, value (digit m) = some m := by decide
  exact hall n (List.mem_range.mpr h)

theorem value_eq_some {c : Char} {n : Nat} (h : value c = some n) : n < 64 ∧ digit n = c := by
  obtain ⟨hlt, hc, -⟩ := List.findIdx?_eq_some_iff_getElem.mp h
  refine ⟨hlt, ?_⟩
  unfold digit
  rw [List.getD_eq_getElem _ _ hlt]
  exact eq_of_beq hc

theorem mapM_value_map_digit {l : List Nat} (h : ∀ n ∈ l, n < 64) : (l.map digit).mapM value = some l := by
  induction l with
  | nil => rfl
  | cons n l ih =>
    have hn := value_digit (h n List.mem_cons_self)
    have hl := ih fun m hm => h m (List.mem_cons_of_mem _ hm)
    simp only [List.map_cons, List.mapM_cons, hn, hl, Option.bind_eq_bind, Option.bind_some, Option.pure_def]

theorem mapM_value_eq_some {cs : List Char} : ∀ {l : List Nat}, cs.mapM value = some l →
    (∀ n ∈ l, n < 64) ∧ l.map digit = cs := by
  induction cs with
  | nil =>
    intro l h
    cases h
    exact ⟨fun _ hn => (List.not_mem_nil hn).elim, rfl⟩
  | cons c cs ih =>
    intro l h
    simp only [List.mapM_cons, Option.bind_eq_bind, Option.pure_def, Option.bind_eq_some_iff] at h
    obtain ⟨n, hn, m, hm, hl⟩ := h
    cases hl
    obtain ⟨hlt, rfl⟩ := value_eq_some hn
    obtain ⟨hall, rfl⟩ := ih hm
    exact ⟨List.forall_mem_cons.mpr ⟨hlt, hall⟩, rfl⟩

/-! ## Numbers and bytes -/

theorem ofNat_eq {n : Nat} {a : UInt8} (h : n = a.toNat) : UInt8.ofNat n = a := by
  rw [h, UInt8.ofNat_toNat]

theorem toNat_ofNat {n : Nat} (h : n < 256) : (UInt8.ofNat n).toNat = n := by
  rw [UInt8.toNat_ofNat']
  exact Nat.mod_eq_of_lt h

theorem octets_sextets (bytes : List UInt8) : octets (sextets bytes) = some bytes := by
  fun_induction sextets bytes with
  | case1 => rfl
  | case2 a =>
    have ha := a.toNat_lt
    unfold octets
    rw [if_pos (by omega), ofNat_eq (show _ = a.toNat by omega)]
  | case3 a b =>
    have ha := a.toNat_lt
    have hb := b.toNat_lt
    unfold octets
    rw [if_pos (by omega), ofNat_eq (show _ = a.toNat by omega), ofNat_eq (show _ = b.toNat by omega)]
  | case4 a b c bytes ih =>
    have ha := a.toNat_lt
    have hb := b.toNat_lt
    have hc := c.toNat_lt
    unfold octets
    rw [ih, Option.map_some, ofNat_eq (show _ = a.toNat by omega), ofNat_eq (show _ = b.toNat by omega),
      ofNat_eq (show _ = c.toNat by omega)]

theorem sextets_lt (bytes : List UInt8) : ∀ n ∈ sextets bytes, n < 64 := by
  fun_induction sextets bytes with
  | case1 => exact fun _ hn => (List.not_mem_nil hn).elim
  | case2 a =>
    have ha := a.toNat_lt
    simp only [List.forall_mem_cons]
    exact ⟨by omega, by omega, fun _ hn => (List.not_mem_nil hn).elim⟩
  | case3 a b =>
    have ha := a.toNat_lt
    have hb := b.toNat_lt
    simp only [List.forall_mem_cons]
    exact ⟨by omega, by omega, by omega, fun _ hn => (List.not_mem_nil hn).elim⟩
  | case4 a b c bytes ih =>
    have ha := a.toNat_lt
    have hb := b.toNat_lt
    have hc := c.toNat_lt
    simp only [List.forall_mem_cons]
    exact ⟨by omega, by omega, by omega, by omega, ih⟩

theorem sextets_of_octets {l : List Nat} (hlt : ∀ n ∈ l, n < 64) {bytes : List UInt8} (h : octets l = some bytes) :
    sextets bytes = l := by
  fun_induction octets l generalizing bytes with
  | case1 =>
    cases h
    rfl
  | case2 => cases h
  | case3 p q hq =>
    cases h
    simp only [List.forall_mem_cons] at hlt
    have hp : (UInt8.ofNat (p * 4 + q / 16)).toNat = p * 4 + q / 16 := toNat_ofNat (by omega)
    simp only [sextets, hp, List.cons.injEq, and_true]
    omega
  | case4 => cases h
  | case5 p q r hr =>
    cases h
    simp only [List.forall_mem_cons] at hlt
    have hp : (UInt8.ofNat (p * 4 + q / 16)).toNat = p * 4 + q / 16 := toNat_ofNat (by omega)
    have hq : (UInt8.ofNat (q % 16 * 16 + r / 4)).toNat = q % 16 * 16 + r / 4 := toNat_ofNat (by omega)
    simp only [sextets, hp, hq, List.cons.injEq, and_true]
    omega
  | case6 => cases h
  | case7 p q r s rest ih =>
    obtain ⟨bs, hbs, rfl⟩ := Option.map_eq_some_iff.mp h
    simp only [List.forall_mem_cons] at hlt
    obtain ⟨hp64, hq64, hr64, hs64, hrest⟩ := hlt
    have hp : (UInt8.ofNat (p * 4 + q / 16)).toNat = p * 4 + q / 16 := toNat_ofNat (by omega)
    have hq : (UInt8.ofNat (q % 16 * 16 + r / 4)).toNat = q % 16 * 16 + r / 4 := toNat_ofNat (by omega)
    have hr : (UInt8.ofNat (r % 4 * 64 + s)).toNat = r % 4 * 64 + s := toNat_ofNat (by omega)
    simp only [sextets, hp, hq, hr, ih hrest hbs, List.cons.injEq, and_true]
    omega

/-! ## Both ways -/

theorem decode_encode (bytes : List UInt8) : decode (encode bytes) = some bytes := by
  unfold decode encode
  rw [mapM_value_map_digit (sextets_lt bytes), Option.bind_some, octets_sextets]

theorem encode_of_decode {cs : List Char} {bytes : List UInt8} (h : decode cs = some bytes) : encode bytes = cs := by
  obtain ⟨l, hl, hbytes⟩ := Option.bind_eq_some_iff.mp h
  obtain ⟨hlt, rfl⟩ := mapM_value_eq_some hl
  unfold encode
  rw [sextets_of_octets hlt hbytes]

/-- **Bytes have one text, and a text has these bytes or none.** -/
theorem decode_eq_some_iff {cs : List Char} {bytes : List UInt8} : decode cs = some bytes ↔ cs = encode bytes :=
  ⟨fun h => (encode_of_decode h).symm, fun h => h ▸ decode_encode bytes⟩

theorem mem_encode {bytes : List UInt8} {c : Char} (h : c ∈ encode bytes) : c ∈ alphabet := by
  obtain ⟨n, hn, rfl⟩ := List.mem_map.mp h
  have hlt : n < alphabet.length := sextets_lt bytes n hn
  unfold digit
  rw [List.getD_eq_getElem _ _ hlt]
  exact List.getElem_mem hlt

example : encode [104, 105, 33, 255] = "aGkh_w".toList := by decide

end Base64
