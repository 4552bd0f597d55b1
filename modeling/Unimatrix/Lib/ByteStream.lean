import Mathlib.Data.List.Basic

/-!
# Byte streams that arrive in pieces

* `beBytes`, `ofBeBytes`: a 32-bit number as four bytes, the most significant one first, and back.
* A `Reader` is what a stream still holds, cut into the pieces that a `read` returns; none of them is empty, for that
  is how a stream ends. `readExact` reads on until it has all it was asked for.

**`readExact_spec`**: what is read is the beginning of the bytes to come, however they are cut, and there are too few
of them exactly where nothing is returned.
-/

namespace ByteStream

/-! ## Big-endian words -/

/-- `to_be_bytes`, `writeUInt32BE`. -/
def beBytes (n : Nat) : List UInt8 :=
  [UInt8.ofNat (n / 0x1000000), UInt8.ofNat (n / 0x10000), UInt8.ofNat (n / 0x100), UInt8.ofNat n]

/-- `from_be_bytes`, `readUInt32BE`. -/
def ofBeBytes (bs : List UInt8) : Nat := bs.foldl (fun n b => n * 0x100 + b.toNat) 0

@[simp] theorem beBytes_length (n : Nat) : (beBytes n).length = 4 := rfl

theorem ofBeBytes_beBytes {n : Nat} (h : n < 0x100000000) : ofBeBytes (beBytes n) = n := by
  unfold ofBeBytes beBytes
  simp only [List.foldl_cons, List.foldl_nil, UInt8.toNat_ofNat']
  omega

/-! ## Readers -/

/-- What a stream still holds. -/
structure Reader where
  chunks : List (List UInt8)
  nonempty : [] ∉ chunks

namespace Reader

/-- The bytes to come. -/
def contents (r : Reader) : List UInt8 := r.chunks.flatten

/-- A stream that delivers its bytes at once. -/
def ofBytes (bs : List UInt8) : Reader where
  chunks := if bs = [] then [] else [bs]
  nonempty := by
    split
    · exact List.not_mem_nil
    · rename_i h
      rw [List.mem_singleton]
      exact fun heq => h heq.symm

theorem contents_ofBytes (bs : List UInt8) : (ofBytes bs).contents = bs := by
  unfold ofBytes contents
  dsimp only
  split
  · rename_i h
    rw [h]
    rfl
  · simp

theorem nonempty_tail {c : List UInt8} {cs : List (List UInt8)} (h : [] ∉ c :: cs) : [] ∉ cs :=
  fun hm => h (List.mem_cons_of_mem c hm)

/-- The pieces left after `n` bytes of them were read, with these bytes. -/
def takeChunks : List (List UInt8) → Nat → Option (List UInt8 × List (List UInt8))
  | cs, 0 => some ([], cs)
  | [], _ + 1 => none
  | c :: cs, n + 1 =>
    if n + 1 < c.length then some (c.take (n + 1), c.drop (n + 1) :: cs)
    else (takeChunks cs (n + 1 - c.length)).map fun p => (c ++ p.1, p.2)

theorem takeChunks_nonempty {cs cs' : List (List UInt8)} {n : Nat} {bs : List UInt8} (hcs : [] ∉ cs)
    (h : takeChunks cs n = some (bs, cs')) : [] ∉ cs' := by
  induction cs generalizing n bs with
  | nil =>
    cases n with
    | zero =>
      cases h
      exact hcs
    | succ n => cases h
  | cons c cs ih =>
    cases n with
    | zero =>
      cases h
      exact hcs
    | succ n =>
      unfold takeChunks at h
      split at h
      · rename_i hlt
        cases h
        rw [List.mem_cons, not_or]
        refine ⟨fun hnil => ?_, nonempty_tail hcs⟩
        have hlen := congrArg List.length hnil
        rw [List.length_nil, List.length_drop] at hlen
        omega
      · obtain ⟨p, hp, heq⟩ := Option.map_eq_some_iff.mp h
        cases heq
        exact ih (nonempty_tail hcs) hp

/-- `read_exact`: `none` where the stream ends before `n` bytes were read. -/
def readExact (r : Reader) (n : Nat) : Option (List UInt8 × Reader) :=
  match h : takeChunks r.chunks n with
  | none => none
  | some (bs, cs) => some (bs, ⟨cs, takeChunks_nonempty r.nonempty h⟩)

theorem takeChunks_eq_none {cs : List (List UInt8)} {n : Nat} :
    takeChunks cs n = none ↔ cs.flatten.length < n := by
  induction cs generalizing n with
  | nil => cases n <;> simp [takeChunks]
  | cons c cs ih =>
    cases n with
    | zero => simp [takeChunks]
    | succ n =>
      unfold takeChunks
      rw [List.flatten_cons, List.length_append]
      split
      · simp
        omega
      · rw [Option.map_eq_none_iff, ih]
        omega

theorem takeChunks_eq_some {cs cs' : List (List UInt8)} {n : Nat} {bs : List UInt8}
    (h : takeChunks cs n = some (bs, cs')) : cs.flatten = bs ++ cs'.flatten ∧ bs.length = n := by
  induction cs generalizing n bs with
  | nil =>
    cases n with
    | zero =>
      cases h
      exact ⟨rfl, rfl⟩
    | succ n => cases h
  | cons c cs ih =>
    cases n with
    | zero =>
      cases h
      exact ⟨rfl, rfl⟩
    | succ n =>
      unfold takeChunks at h
      split at h
      · rename_i hlt
        cases h
        rw [List.flatten_cons, List.flatten_cons, ← List.append_assoc, List.take_append_drop]
        exact ⟨rfl, by rw [List.length_take]; omega⟩
      · rename_i hge
        obtain ⟨p, hp, heq⟩ := Option.map_eq_some_iff.mp h
        cases heq
        obtain ⟨hflat, hlen⟩ := ih hp
        rw [List.flatten_cons, hflat, List.length_append, hlen, List.append_assoc]
        exact ⟨rfl, by omega⟩

/-- **What is read is the beginning of the bytes to come, however they are cut.** -/
theorem readExact_spec (r : Reader) (n : Nat) :
    (r.contents.length < n → r.readExact n = none) ∧
      ∀ bs rest, r.contents = bs ++ rest → bs.length = n →
        ∃ r', r.readExact n = some (bs, r') ∧ r'.contents = rest := by
  unfold readExact contents
  constructor
  · intro hlt
    split
    · rfl
    · rename_i bs cs h
      rw [takeChunks_eq_none.mpr hlt] at h
      cases h
  · intro bs rest hsplit hlen
    split
    · rename_i h
      have hlt := takeChunks_eq_none.mp h
      rw [hsplit, List.length_append] at hlt
      omega
    · rename_i bs' cs h
      obtain ⟨hflat, hlen'⟩ := takeChunks_eq_some h
      obtain ⟨rfl, hrest⟩ := List.append_inj (hflat.symm.trans hsplit) (hlen'.trans hlen.symm)
      exact ⟨_, rfl, hrest⟩

end Reader

end ByteStream
