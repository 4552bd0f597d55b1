import Unimatrix.Lib.Encode

/-!
# Texts at a place among bytes

`At bytes i cs`: the encoded text `cs` stands at byte `i`. A text is made of its parts (`at_append`), an ASCII character
is one byte (`at_singleton`), and what stands at the beginning of an encoded text is a beginning of the text (`at_rest`).
-/

namespace Utf8

/-- The text `cs` stands at byte `i`. -/
def At (bytes : List UInt8) (i : Nat) (cs : List Char) : Prop := encode cs <+: bytes.drop i

theorem encode_ascii {cs : List Char} (h : ∀ c ∈ cs, c.toNat < 0x80) : encode cs = cs.map fun c => UInt8.ofNat c.toNat := by
  induction cs with
  | nil => rfl
  | cons c cs ih =>
    have hc := h c List.mem_cons_self
    have henc := encoded_encodeChar c
    rw [encode_cons, ih fun d hd => h d (List.mem_cons_of_mem _ hd), List.map_cons]
    generalize String.utf8EncodeChar c = bs at henc
    cases henc with
    | one _ hx => rw [List.singleton_append, ← hx, UInt8.ofNat_toNat]
    | two hc' => omega
    | three hc' => omega
    | four hc' => omega

theorem at_append {bytes : List UInt8} {i : Nat} {cs ds : List Char} :
    At bytes i (cs ++ ds) ↔ At bytes i cs ∧ At bytes (i + (encode cs).length) ds := by
  simp only [At, encode_append, ← List.drop_drop]
  constructor
  · rintro ⟨rest, h⟩
    rw [List.append_assoc] at h
    rw [← h, List.drop_left]
    exact ⟨⟨_, rfl⟩, ⟨rest, rfl⟩⟩
  · rintro ⟨⟨rest, h⟩, hds⟩
    rw [← h, List.drop_left] at hds
    rw [← h]
    exact (List.prefix_append_right_inj _).mpr hds

theorem at_singleton {bytes : List UInt8} {i : Nat} {c : Char} (h : c.toNat < 0x80) :
    At bytes i [c] ↔ bytes[i]? = some (UInt8.ofNat c.toNat) := by
  rw [At, encode_ascii (by simpa using h), ← List.head?_drop, List.map_singleton, List.head?_eq_some_iff]
  constructor
  · rintro ⟨rest, h⟩
    exact ⟨rest, h.symm⟩
  · rintro ⟨rest, h⟩
    exact ⟨rest, h.symm⟩

/-- **A text that stands at the beginning of an encoded text begins it.** -/
theorem encode_isPrefix {cs ds : List Char} : encode cs <+: encode ds ↔ cs <+: ds := by
  constructor
  · rintro ⟨rest, h⟩
    have hd := decode_encode_append cs rest
    rw [h, decode_encode] at hd
    exact ⟨_, hd.symm⟩
  · rintro ⟨rest, rfl⟩
    exact ⟨_, (encode_append _ _).symm⟩

theorem at_rest {bytes : List UInt8} {i : Nat} {cs ds : List Char} (h : bytes.drop i = encode ds) :
    At bytes i cs ↔ cs <+: ds := by
  rw [At, h, encode_isPrefix]

/-- What stands behind a text. -/
theorem drop_rest {bytes : List UInt8} {i : Nat} {cs ds : List Char} (h : bytes.drop i = encode (cs ++ ds)) :
    bytes.drop (i + (encode cs).length) = encode ds := by
  rw [← List.drop_drop, h, encode_append, List.drop_left]

theorem at_encode {cs ds : List Char} : At (encode ds) 0 cs ↔ cs <+: ds := at_rest rfl

end Utf8
