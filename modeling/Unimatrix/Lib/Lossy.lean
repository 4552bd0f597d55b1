import Unimatrix.Lib.Encode

/-!
# How long a text is that was read with replacement

`decode` writes one U+FFFD, of three bytes, for each sequence of bytes that is none of UTF-8 (`illFormed`). Such a
sequence has one to three bytes, so the text is never shorter than what was read: it is longer by what these sequences
lack of three bytes each (`shortfall`), **`length_encode_decode`**.

A byte of ASCII belongs to no longer sequence, so it is read as its character wherever it stands
(**`decode_ascii`**), and its character is read from nothing else (`mem_decode`).
-/

namespace Utf8

/-- The sequence that `b` is alone, if none can begin with it. -/
def lone (b : UInt8) : List (List UInt8) := if start b = ([replacement], none) then [[b]] else []

/-- The sequences that are replaced, when `begun` are the bytes of the one that has begun. -/
def illFormedFrom : List UInt8 → Option Pending → List UInt8 → List (List UInt8)
  | _, none, [] => []
  | begun, some _, [] => [begun]
  | _, none, b :: bs => lone b ++ illFormedFrom [b] (start b).2 bs
  | begun, some p, b :: bs =>
    if p.accepts b then illFormedFrom (begun ++ [b]) (p.next b).2 bs
    else begun :: (lone b ++ illFormedFrom [b] (start b).2 bs)

/-- The sequences of an input that are replaced. -/
def illFormed (bs : List UInt8) : List (List UInt8) := illFormedFrom [] none bs

/-- What some sequences lack of three bytes each. -/
def lacking (seqs : List (List UInt8)) : Nat := (seqs.map fun seq => 3 - seq.length).sum

/-- What the replaced sequences of an input lack of three bytes each. -/
def shortfall (bs : List UInt8) : Nat := lacking (illFormed bs)

/-! ## The length of a character -/

/-- `v` is a character that takes `k` bytes. -/
def Takes (k v : Nat) : Prop :=
  (k = 1 ∧ v ≤ 0x7F) ∨ (k = 2 ∧ 0x80 ≤ v ∧ v ≤ 0x7FF) ∨
    (k = 3 ∧ 0x800 ≤ v ∧ v ≤ 0xFFFF ∧ (v ≤ 0xD7FF ∨ 0xE000 ≤ v)) ∨ (k = 4 ∧ 0x10000 ≤ v ∧ v ≤ 0x10FFFF)

theorem Takes.length {k v : Nat} (h : Takes k v) : (String.utf8EncodeChar (Char.ofNat v)).length = k := by
  have hv : v.isValidChar := by
    unfold Takes at h
    unfold Nat.isValidChar
    omega
  have hto : (Char.ofNat v).toNat = v := by
    rw [Char.ofNat, dif_pos hv]
    rfl
  have henc := encoded_encodeChar (Char.ofNat v)
  generalize String.utf8EncodeChar (Char.ofNat v) = bs at henc
  unfold Takes at h
  cases henc with
  | one hc => simp only [List.length_cons, List.length_nil]; omega
  | two hc => simp only [List.length_cons, List.length_nil]; omega
  | three hc => simp only [List.length_cons, List.length_nil]; omega
  | four hc => simp only [List.length_cons, List.length_nil]; omega

/-! ## The sequence that has begun -/

/-- Of the sequence `n` bytes were read; however it goes on, it is a character of so many bytes. -/
structure Pending.Expects (p : Pending) (n : Nat) : Prop where
  needed : 1 ≤ p.needed
  read : n ≤ 3
  lower : 0x80 ≤ p.lower
  upper : p.upper ≤ 0xBF
  takes : ∀ b rest, p.lower ≤ b → b ≤ p.upper → rest < 64 ^ (p.needed - 1) →
    Takes (n + p.needed) ((p.value * 64 + (b - 0x80)) * 64 ^ (p.needed - 1) + rest)

/-- What a first byte does: it is a character, or none, or it begins a sequence. -/
theorem start_cases (b : UInt8) :
    (start b = ([Char.ofNat b.toNat], none) ∧ Takes 1 b.toNat ∧ lone b = []) ∨
      (start b = ([replacement], none) ∧ lone b = [[b]]) ∨
      ∃ p : Pending, start b = ([], some p) ∧ p.Expects 1 ∧ lone b = [] := by
  have hlone : ∀ q, (start b).2 = some q → lone b = [] := fun q hq => if_neg fun h => by rw [h] at hq; cases hq
  unfold start at hlone ⊢
  simp only at hlone ⊢
  split
  · rename_i hv
    refine .inl ⟨rfl, .inl ⟨rfl, hv⟩, if_neg fun h => ?_⟩
    unfold start at h
    simp only [hv, if_true, Prod.mk.injEq, List.cons.injEq, and_true] at h
    have hlen := Takes.length (k := 1) (v := b.toNat) (.inl ⟨rfl, hv⟩)
    rw [h] at hlen
    exact absurd hlen (by decide)
  split
  · rename_i h₁ h₂
    refine .inr (.inr ⟨_, rfl, ⟨le_rfl, by omega, le_rfl, le_rfl, fun x rest hl hu hrest => ?_⟩, ?_⟩)
    · dsimp only at hl hu hrest ⊢
      rw [Nat.sub_self, Nat.pow_zero] at hrest ⊢
      unfold Takes
      omega
    · exact hlone _ (by rw [if_neg h₁, if_pos h₂])
  split
  · rename_i h₁ h₂ h₃
    refine .inr (.inr ⟨_, rfl, ⟨Nat.le_add_left 1 1, by omega, ?_, ?_, fun x rest hl hu hrest => ?_⟩, ?_⟩)
    · dsimp only
      split <;> omega
    · dsimp only
      split <;> omega
    · dsimp only at hl hu hrest ⊢
      rw [show 64 ^ (2 - 1) = 64 from rfl] at hrest ⊢
      unfold Takes
      split at hl <;> split at hu <;> omega
    · exact hlone _ (by rw [if_neg h₁, if_neg h₂, if_pos h₃])
  split
  · rename_i h₁ h₂ h₃ h₄
    refine .inr (.inr ⟨_, rfl, ⟨Nat.le_add_left 1 2, by omega, ?_, ?_, fun x rest hl hu hrest => ?_⟩, ?_⟩)
    · dsimp only
      split <;> omega
    · dsimp only
      split <;> omega
    · dsimp only at hl hu hrest ⊢
      rw [show 64 ^ (3 - 1) = 4096 from rfl] at hrest ⊢
      unfold Takes
      split at hl <;> split at hu <;> omega
    · exact hlone _ (by rw [if_neg h₁, if_neg h₂, if_neg h₃, if_pos h₄])
  · rename_i h₁ h₂ h₃ h₄
    refine .inr (.inl ⟨rfl, if_pos ?_⟩)
    unfold start
    simp only
    rw [if_neg h₁, if_neg h₂, if_neg h₃, if_neg h₄]

/-- The sequence ends in a character, or goes on. -/
theorem Pending.Expects.next {p : Pending} {n : Nat} (h : p.Expects n) {b : UInt8} (hb : p.accepts b) :
    (∃ v, p.next b = ([Char.ofNat v], none) ∧ Takes (n + 1) v) ∨
      ∃ q : Pending, p.next b = ([], some q) ∧ q.Expects (n + 1) := by
  obtain ⟨hl, hu⟩ := of_decide_eq_true hb
  have hneeded := h.needed
  unfold Pending.next
  simp only
  split
  · rename_i hlast
    obtain hone : p.needed = 1 := by omega
    have htakes := h.takes b.toNat 0 hl hu (by rw [hone]; decide)
    simp only [hone, Nat.sub_self, Nat.pow_zero, Nat.mul_one, Nat.add_zero] at htakes
    exact .inl ⟨_, rfl, htakes⟩
  · rename_i hmore
    obtain ⟨m, hm⟩ : ∃ m, p.needed = m + 2 := ⟨p.needed - 2, by omega⟩
    have hall : ∀ x rest, 0x80 ≤ x → x ≤ 0xBF → rest < 64 ^ m →
        Takes (n + (m + 2)) (((p.value * 64 + (b.toNat - 0x80)) * 64 + (x - 0x80)) * 64 ^ m + rest) := by
      intro x rest hx hx' hrest
      have hlt : (x - 0x80) * 64 ^ m + rest < 64 ^ (m + 1) := by
        have hle : (x - 0x80) * 64 ^ m ≤ 63 * 64 ^ m := Nat.mul_le_mul_right _ (by omega)
        rw [Nat.pow_succ]
        omega
      have htakes := h.takes b.toNat ((x - 0x80) * 64 ^ m + rest) hl hu (by rw [hm]; exact hlt)
      rw [hm, Nat.add_sub_assoc (by decide), show 2 - 1 = 1 from rfl, Nat.pow_succ] at htakes
      convert htakes using 1
      ring
    have hread : n + 1 ≤ 3 := by
      have htakes := hall 0x80 0 le_rfl (by decide) (Nat.pow_pos (by decide))
      unfold Takes at htakes
      omega
    refine .inr ⟨_, rfl, ⟨by simp only [hm]; omega, hread, le_rfl, le_rfl, fun x rest hx hx' hrest => ?_⟩⟩
    simp only [hm, show m + 2 - 1 - 1 = m by omega] at hrest ⊢
    rw [show n + 1 + (m + 2 - 1) = n + (m + 2) by omega]
    exact hall x rest hx hx' hrest

/-! ## The length of a text -/

theorem lacking_cons (seq : List UInt8) (seqs : List (List UInt8)) :
    lacking (seq :: seqs) = 3 - seq.length + lacking seqs := by
  unfold lacking
  rw [List.map_cons, List.sum_cons]

/-- The bytes that were read of the sequence that has begun. -/
def begunLength (begun : List UInt8) (s : Option Pending) : Nat := if s.isSome then begun.length else 0

@[simp] theorem begunLength_none (begun : List UInt8) : begunLength begun none = 0 := rfl

@[simp] theorem begunLength_some (begun : List UInt8) (p : Pending) : begunLength begun (some p) = begun.length := rfl

/-- What a first byte and the bytes after it give, if it is so for the bytes after it. -/
theorem length_start {b : UInt8} {bs : List UInt8}
    (ih : ∀ (begun : List UInt8) (s : Option Pending), (∀ p ∈ s, p.Expects begun.length) →
      (encode (decodeFrom s bs)).length = begunLength begun s + bs.length + lacking (illFormedFrom begun s bs)) :
    (encode ((start b).1 ++ decodeFrom (start b).2 bs)).length =
      bs.length + 1 + lacking (lone b ++ illFormedFrom [b] (start b).2 bs) := by
  rcases start_cases b with ⟨hstart, htakes, hlone⟩ | ⟨hstart, hlone⟩ | ⟨p, hstart, hp, hlone⟩
  · have hrest := ih [b] none fun p hp => by cases hp
    rw [hstart, hlone]
    simp only [List.singleton_append, List.nil_append]
    rw [encode_cons, List.length_append, htakes.length, hrest]
    simp only [begunLength_none]
    omega
  · have hrest := ih [b] none fun p hp => by cases hp
    rw [hstart, hlone]
    simp only [List.singleton_append]
    rw [encode_cons, List.length_append, hrest, lacking_cons]
    have hthree : (String.utf8EncodeChar replacement).length = 3 := rfl
    simp only [begunLength_none, List.length_singleton]
    omega
  · have hrest := ih [b] (some p) fun q hq => by
      obtain rfl := Option.some.inj hq
      exact hp
    rw [hstart, hlone]
    simp only [List.nil_append]
    rw [hrest]
    simp only [begunLength_some, List.length_singleton]
    omega

theorem length_decodeFrom (bs begun : List UInt8) (s : Option Pending) (hs : ∀ p ∈ s, p.Expects begun.length) :
    (encode (decodeFrom s bs)).length = begunLength begun s + bs.length + lacking (illFormedFrom begun s bs) := by
  induction bs generalizing begun s with
  | nil =>
    cases s with
    | none => rfl
    | some p =>
      have hread := (hs p rfl).read
      have hflush : (encode (decodeFrom (some p) [])).length = 3 := rfl
      rw [hflush, illFormedFrom, lacking_cons]
      simp only [begunLength_some, List.length_nil, lacking, List.map_nil, List.sum_nil]
      omega
  | cons b bs ih =>
    rw [decodeFrom_cons]
    cases s with
    | none =>
      have hrest := length_start (b := b) fun begun s => ih begun s
      simp only [step, illFormedFrom, List.length_cons]
      rw [hrest]
      simp only [begunLength_none]
      omega
    | some p =>
      have hp := hs p rfl
      simp only [step, illFormedFrom, List.length_cons]
      split
      · rename_i hb
        rcases hp.next hb with ⟨v, hnext, htakes⟩ | ⟨q, hnext, hq⟩
        · have hrest := ih (begun ++ [b]) none fun p hp => by cases hp
          rw [hnext]
          simp only [List.singleton_append]
          rw [encode_cons, List.length_append, htakes.length, hrest]
          simp only [begunLength_none, begunLength_some]
          omega
        · have hrest := ih (begun ++ [b]) (some q) fun q' hq' => by
            obtain rfl := Option.some.inj hq'
            rw [List.length_append, List.length_singleton]
            exact hq
          rw [hnext]
          simp only [List.nil_append]
          rw [hrest]
          simp only [begunLength_some, List.length_append, List.length_singleton]
          omega
      · -- the sequence that has begun is replaced, and `b` is read as a first byte
        have hread := hp.read
        have hrest := length_start (b := b) fun begun s => ih begun s
        rw [List.cons_append, encode_cons, List.length_append, hrest, lacking_cons]
        have hthree : (String.utf8EncodeChar replacement).length = 3 := rfl
        simp only [begunLength_some]
        omega

/-- **A text that was read is as long as its bytes and what the replaced sequences lack.** -/
theorem length_encode_decode (bs : List UInt8) : (encode (decode bs)).length = bs.length + shortfall bs := by
  have h := length_decodeFrom bs [] none fun p hp => by cases hp
  rwa [begunLength_none, Nat.zero_add] at h

/-! ## Bytes of ASCII -/

/-- The sequence that has begun can still end in a character. -/
def Expected (s : Option Pending) : Prop := ∀ p ∈ s, ∃ n, 1 ≤ n ∧ p.Expects n

theorem expected_none : Expected none := fun p hp => by cases hp

theorem Takes.toNat_ge {k v : Nat} (hk : 2 ≤ k) (h : Takes k v) : 0x80 ≤ (Char.ofNat v).toNat := by
  have hv : v.isValidChar ∧ 0x80 ≤ v := by
    unfold Takes at h
    unfold Nat.isValidChar
    omega
  have hto : (Char.ofNat v).toNat = v := by
    rw [Char.ofNat, dif_pos hv.1]
    rfl
  rw [hto]
  exact hv.2

theorem toNat_replacement : 0x80 ≤ replacement.toNat := by decide

/-- A byte that is read gives its own character, or one outside ASCII. -/
structure Reads (b : UInt8) (r : List Char × Option Pending) : Prop where
  expected : Expected r.2
  chars : ∀ c ∈ r.1, c.toNat = b.toNat ∨ 0x80 ≤ c.toNat
  nonempty : r.1 ++ flush r.2 ≠ []

theorem start_reads (b : UInt8) : Reads b (start b) := by
  rcases start_cases b with ⟨hstart, htakes, -⟩ | ⟨hstart, -⟩ | ⟨p, hstart, hp, -⟩
  · have hto : (Char.ofNat b.toNat).toNat = b.toNat := by
      have hlt : b.toNat ≤ 0x7F := by
        unfold Takes at htakes
        omega
      rw [Char.ofNat, dif_pos (Or.inl (by omega))]
      rfl
    rw [hstart]
    exact ⟨expected_none, fun c hc => .inl (by rw [List.mem_singleton.mp hc, hto]), List.cons_ne_nil _ _⟩
  · rw [hstart]
    exact ⟨expected_none, fun c hc => .inr (List.mem_singleton.mp hc ▸ toNat_replacement), List.cons_ne_nil _ _⟩
  · rw [hstart]
    refine ⟨fun q hq => ?_, fun c hc => (by cases hc), List.cons_ne_nil _ _⟩
    obtain rfl := Option.some.inj hq
    exact ⟨1, le_rfl, hp⟩

theorem step_reads {s : Option Pending} (hs : Expected s) (b : UInt8) : Reads b (step s b) := by
  cases s with
  | none => exact start_reads b
  | some p =>
    obtain ⟨n, hn, hp⟩ := hs p rfl
    simp only [step]
    split
    · rename_i hb
      rcases hp.next hb with ⟨v, hnext, htakes⟩ | ⟨q, hnext, hq⟩
      · rw [hnext]
        refine ⟨expected_none, fun c hc => .inr ?_, List.cons_ne_nil _ _⟩
        rw [List.mem_singleton.mp hc]
        exact htakes.toNat_ge (by omega)
      · rw [hnext]
        refine ⟨fun q' hq' => ?_, fun c hc => (by cases hc), List.cons_ne_nil _ _⟩
        obtain rfl := Option.some.inj hq'
        exact ⟨n + 1, by omega, hq⟩
    · obtain ⟨hexpected, hchars, -⟩ := start_reads b
      refine ⟨hexpected, fun c hc => ?_, List.cons_ne_nil _ _⟩
      rcases List.mem_cons.mp hc with rfl | hc
      · exact .inr toNat_replacement
      · exact hchars c hc

theorem stateAfter_expected {s : Option Pending} (hs : Expected s) (bs : List UInt8) :
    Expected (stateAfter s bs) := by
  induction bs generalizing s with
  | nil => exact hs
  | cons b bs ih => exact ih (step_reads hs b).expected

theorem mem_decodeFrom {s : Option Pending} (hs : Expected s) {bs : List UInt8} {c : Char} (hc : c.toNat < 0x80)
    (h : c ∈ decodeFrom s bs) : ∃ b ∈ bs, b.toNat = c.toNat := by
  induction bs generalizing s with
  | nil =>
    cases s with
    | none => cases h
    | some p =>
      rw [List.mem_singleton.mp h] at hc
      exact absurd toNat_replacement (Nat.not_le.mpr hc)
  | cons b bs ih =>
    obtain ⟨hexpected, hchars, -⟩ := step_reads hs b
    rw [decodeFrom_cons] at h
    rcases List.mem_append.mp h with h | h
    · rcases hchars c h with heq | hge
      · exact ⟨b, List.mem_cons_self, heq.symm⟩
      · omega
    · obtain ⟨x, hx, heq⟩ := ih hexpected h
      exact ⟨x, List.mem_cons_of_mem _ hx, heq⟩

/-- A character of ASCII is read from its byte only. -/
theorem mem_decode {bs : List UInt8} {c : Char} (hc : c.toNat < 0x80) (h : c ∈ decode bs) :
    ∃ b ∈ bs, b.toNat = c.toNat := mem_decodeFrom expected_none hc h

/-- What is read last is the last byte's character, or one outside ASCII. -/
theorem getLast?_decode (bs : List UInt8) (b : UInt8) {c : Char} (h : (decode (bs ++ [b])).getLast? = some c) :
    c.toNat = b.toNat ∨ 0x80 ≤ c.toNat := by
  obtain ⟨-, hchars, hne⟩ := step_reads (stateAfter_expected expected_none bs) b
  unfold decode at h
  rw [decodeFrom_append, decodeFrom_cons] at h
  change (written none bs ++ ((step (stateAfter none bs) b).1 ++ flush (step (stateAfter none bs) b).2)).getLast? =
    some c at h
  rw [List.getLast?_append_of_ne_nil _ hne] at h
  rcases List.mem_append.mp (List.mem_of_getLast? h) with hc | hc
  · exact hchars c hc
  · right
    cases hs : (step (stateAfter none bs) b).2 with
    | none =>
      rw [hs] at hc
      cases hc
    | some p =>
      rw [hs] at hc
      rw [List.mem_singleton.mp hc]
      exact toNat_replacement

/-- No sequence goes on with a byte of ASCII. -/
theorem cuts_ascii (xs : List UInt8) {b : UInt8} (hb : b.toNat < 0x80) (ys : List UInt8) :
    Cuts xs (b :: ys) = false := by
  unfold Cuts
  cases hs : stateAfter none xs with
  | none => rfl
  | some p =>
    obtain ⟨n, -, hp⟩ := stateAfter_expected expected_none xs p hs
    have hlower := hp.lower
    exact decide_eq_false fun hacc => by omega

/-- **A byte of ASCII is read as its character**, whatever stands around it. -/
theorem decode_ascii (xs : List UInt8) {b : UInt8} (hb : b.toNat < 0x80) (ys : List UInt8) :
    decode (xs ++ b :: ys) = decode xs ++ Char.ofNat b.toNat :: decode ys := by
  have hstart : start b = ([Char.ofNat b.toNat], none) := by
    unfold start
    simp only
    rw [if_pos (by omega)]
  have hread : decode (b :: ys) = Char.ofNat b.toNat :: decode ys := by
    unfold decode
    rw [decodeFrom_cons]
    simp only [step, hstart]
    rfl
  rw [decode_append (cuts_ascii xs hb ys), hread]

end Utf8
