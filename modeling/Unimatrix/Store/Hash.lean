import Mathlib.Data.List.Basic
import Mathlib.Data.Set.Function
import Mathlib.Data.String.Basic

/-!
# Content hashes

Model of `hash.rs`. SHA-256 is the function `sha256` on byte strings; the program takes it from a
library, and only `computeContentHash_inj` needs anything of it. The hashed text joins title and
content with `": "` and drops an empty part.

* **`computeContentHash_inj`**: where SHA-256 tells the hashed texts apart, so does the content hash.
* `hashText_split`: the text does not say where the title ends.
-/

namespace Unimatrix

/-- A digest function: SHA-256 gives 32 bytes. -/
abbrev Digest : Type := ByteArray → Vector UInt8 32

/-- The text `compute_content_hash` hashes, `prepare_text(title, content, ": ")`. -/
def hashText (title content : String) : String :=
  match title.isEmpty, content.isEmpty with
  | true, true => ""
  | true, false => content
  | false, true => title
  | false, false => title ++ ": " ++ content

/-- One byte in lowercase hexadecimal. -/
def hexByte (b : UInt8) : List Char := [Nat.digitChar (b.toNat / 16), Nat.digitChar (b.toNat % 16)]

/-- `format!("{hash:x}")`. -/
def hex (d : Vector UInt8 32) : String := String.ofList (d.toList.flatMap hexByte)

/-- `compute_content_hash`. -/
def computeContentHash (sha256 : Digest) (title content : String) : String :=
  hex (sha256 (hashText title content).toUTF8)

/-! ## Hexadecimal loses nothing -/

theorem digitChar_inj : ∀ a b : Fin 16, Nat.digitChar a = Nat.digitChar b → a = b := by decide

theorem hexByte_inj {a b : UInt8} (h : hexByte a = hexByte b) : a = b := by
  have ha := a.toNat_lt
  have hb := b.toNat_lt
  obtain ⟨h1, h2⟩ : Nat.digitChar (a.toNat / 16) = Nat.digitChar (b.toNat / 16) ∧
      Nat.digitChar (a.toNat % 16) = Nat.digitChar (b.toNat % 16) := by
    simpa [hexByte] using h
  have hdiv := digitChar_inj ⟨a.toNat / 16, by omega⟩ ⟨b.toNat / 16, by omega⟩ h1
  have hmod := digitChar_inj ⟨a.toNat % 16, by omega⟩ ⟨b.toNat % 16, by omega⟩ h2
  simp only [Fin.mk.injEq] at hdiv hmod
  exact UInt8.toNat_inj.mp (by omega)

theorem flatMap_hexByte_inj : ∀ {l l' : List UInt8}, l.flatMap hexByte = l'.flatMap hexByte → l = l'
  | [], [], _ => rfl
  | [], _ :: _, h => by simp [hexByte] at h
  | _ :: _, [], h => by simp [hexByte] at h
  | a :: l, b :: l', h => by
    rw [List.flatMap_cons, List.flatMap_cons] at h
    obtain ⟨hb, hl⟩ := List.append_inj h rfl
    rw [hexByte_inj hb, flatMap_hexByte_inj hl]

theorem hex_inj {d d' : Vector UInt8 32} (h : hex d = hex d') : d = d' :=
  Vector.toList_inj.mp (flatMap_hexByte_inj (String.ofList_injective h))

/-! ## What a content hash tells apart -/

/-- The bytes hashed for a title and a content. -/
def hashInput (title content : String) : ByteArray := (hashText title content).toUTF8

theorem hashInput_inj {t c t' c' : String} (h : hashInput t c = hashInput t' c') :
    hashText t c = hashText t' c' := String.toByteArray_inj.mp h

/-- **The content hash tells two hashed texts apart** where SHA-256 does. -/
theorem computeContentHash_inj {sha256 : Digest} {inputs : Set ByteArray}
    (hinj : Set.InjOn sha256 inputs) {t c t' c' : String} (h : hashInput t c ∈ inputs)
    (h' : hashInput t' c' ∈ inputs) :
    computeContentHash sha256 t c = computeContentHash sha256 t' c' ↔
      hashText t c = hashText t' c' := by
  constructor
  · intro heq
    exact hashInput_inj (hinj h h' (hex_inj heq))
  · intro heq
    unfold computeContentHash
    rw [heq]

theorem hashText_of_ne {title content : String} (ht : title ≠ "") (hc : content ≠ "") :
    hashText title content = title ++ ": " ++ content := by
  have ht' : title.isEmpty = false := by simpa using ht
  have hc' : content.isEmpty = false := by simpa using hc
  unfold hashText
  rw [ht', hc']

/-- The text does not say where the title ends. -/
theorem hashText_split {a b c : String} (ha : a ≠ "") (hc : c ≠ "") :
    hashText a (b ++ ": " ++ c) = hashText (a ++ ": " ++ b) c := by
  have hleft : b ++ ": " ++ c ≠ "" := by
    intro h
    simp [String.append_eq_empty_iff] at h
  have hright : a ++ ": " ++ b ≠ "" := by
    intro h
    simp [String.append_eq_empty_iff] at h
  rw [hashText_of_ne ha hleft, hashText_of_ne hright hc]
  simp only [String.append_assoc]

end Unimatrix
