import Mathlib.Tactic.Cases
import Unimatrix.Transcript.Buffer

/-!
# The representation invariant of `TranscriptBuffer`

`WF` is the invariant the source lists as I1 to I5. `Shape` is the part that holds in the middle of
`apply_delta` too, before Step 6 bounds the number of holes.

Under `Shape` no helper panics, and each has a closed form over two pure operations:
* `raise b f`: the floor goes up to `f`. Both `advance_base` (`advanceBase_eq`) and
  `collapse_to_newest` (`collapseToNewest_eq`) are `raise`.
* `write b at bytes`: Steps 3 to 5 of `apply_delta` (`mergeWrite_eq`).

`applyDelta_cases` says once what a call of `apply_delta` can do; every result about a run goes
through it. `calls_wf` is the invariant over runs.
-/

namespace Unimatrix.TranscriptBuffer

open Machine Intervals

/-- I1, I2 (all but the bound on the number of holes), I3 and the 64-bit bounds. -/
structure Shape (b : TranscriptBuffer) : Prop where
  len_le : b.data.length ≤ b.maxBytes
  end_le : b.baseOffset + b.data.length ≤ b.highWater
  high_le : b.highWater ≤ u64Max
  elided_le : b.elidedBytes ≤ u64Max
  sep : Separated b.holes
  inside : ∀ h ∈ b.holes, b.baseOffset ≤ h.1 ∧ h.2 < b.baseOffset + b.data.length

/-- **The representation invariant.** -/
structure WF (b : TranscriptBuffer) : Prop extends b.Shape where
  few : b.holes.length ≤ maxHoleRanges

theorem Shape.spanEnd_eq {b : TranscriptBuffer} (hb : b.Shape) :
    b.spanEnd = b.baseOffset + b.data.length :=
  satAdd_eq (le_trans hb.end_le hb.high_le)

theorem Shape.base_le {b : TranscriptBuffer} (hb : b.Shape) : b.baseOffset ≤ b.highWater :=
  le_trans (Nat.le_add_right _ _) hb.end_le

/-- Every hole lies in the span. -/
theorem Shape.hole {b : TranscriptBuffer} (hb : b.Shape) {h : Nat × Nat} (hm : h ∈ b.holes) :
    b.baseOffset ≤ h.1 ∧ h.1 < h.2 ∧ h.2 < b.baseOffset + b.data.length :=
  ⟨(hb.inside h hm).1, hb.sep.proper h hm, (hb.inside h hm).2⟩

theorem new_wf (maxBytes : Nat) (scanner : SignatureScanner) : (new maxBytes scanner).WF where
  len_le := Nat.zero_le _
  end_le := Nat.le_refl _
  high_le := Nat.zero_le _
  elided_le := Nat.zero_le _
  sep := separated_nil
  inside := fun _ h => absurd h List.not_mem_nil
  few := Nat.zero_le _

/-! ## Hole byte counts -/

theorem foldl_satAdd : ∀ (l : List Nat) (a : Nat), a + l.sum ≤ u64Max →
    l.foldl satAdd a = a + l.sum
  | [], a, _ => rfl
  | x :: l, a, h => by
    rw [List.sum_cons] at h
    rw [List.foldl_cons, satAdd_eq (by omega), foldl_satAdd l _ (by omega), List.sum_cons]
    omega

theorem foldlM_hole_bytes : ∀ (l : List (Nat × Nat)) (a : Nat), (∀ h ∈ l, h.1 < h.2) →
    l.foldlM (fun acc hole => (subOr hole.2 hole.1).map (satAdd acc)) a =
      some ((l.map fun h => h.2 - h.1).foldl satAdd a)
  | [], _, _ => rfl
  | h :: l, a, hl => by
    obtain ⟨hh, hl⟩ := List.forall_mem_cons.mp hl
    rw [List.foldlM_cons, subOr_eq (le_of_lt hh)]
    exact foldlM_hole_bytes l _ hl

theorem Shape.total_le {b : TranscriptBuffer} (hb : b.Shape) :
    total b.holes ≤ b.data.length := by
  have := Intervals.total_le hb.sep (a := b.baseOffset) (b := b.baseOffset + b.data.length)
    fun h hm => ⟨(hb.hole hm).1, le_of_lt (hb.hole hm).2.2⟩
  omega

theorem Shape.totalHoleBytes_eq {b : TranscriptBuffer} (hb : b.Shape) :
    b.totalHoleBytes = some (total b.holes) := by
  have h1 := hb.total_le
  have h2 := hb.end_le
  have h3 := hb.high_le
  unfold totalHoleBytes
  rw [foldlM_hole_bytes _ _ hb.sep.proper, foldl_satAdd _ _ (by unfold total at h1; omega)]
  unfold total
  rw [Nat.zero_add]

/-! ## Raising the floor -/

/-- Received bytes below `f`: those of the span, less the hole bytes among them. -/
def receivedBelow (b : TranscriptBuffer) (f : Nat) : Nat :=
  min (f - b.baseOffset) b.data.length -
    (b.holes.map fun hole => min hole.2 f - max hole.1 b.baseOffset).sum

/-- The buffer with its floor raised to `f`. -/
def raise (b : TranscriptBuffer) (f : Nat) : TranscriptBuffer :=
  { b with
    elidedBytes := satAdd b.elidedBytes (b.receivedBelow f)
    data := b.data.drop (f - b.baseOffset)
    holes := trimBelow f b.holes
    baseOffset := f }

@[simp] theorem raise_baseOffset (b : TranscriptBuffer) (f : Nat) :
    (b.raise f).baseOffset = f := rfl

@[simp] theorem raise_highWater (b : TranscriptBuffer) (f : Nat) :
    (b.raise f).highWater = b.highWater := rfl

@[simp] theorem raise_maxBytes (b : TranscriptBuffer) (f : Nat) :
    (b.raise f).maxBytes = b.maxBytes := rfl

@[simp] theorem raise_data_length (b : TranscriptBuffer) (f : Nat) :
    (b.raise f).data.length = b.data.length - (f - b.baseOffset) := List.length_drop

theorem Shape.raise {b : TranscriptBuffer} (hb : b.Shape) {f : Nat} (hf : b.baseOffset ≤ f)
    (hh : f ≤ b.highWater) : (b.raise f).Shape where
  len_le := by
    have := hb.len_le
    rw [raise_data_length, raise_maxBytes]
    omega
  end_le := by
    have := hb.end_le
    rw [raise_data_length, raise_baseOffset, raise_highWater]
    omega
  high_le := hb.high_le
  elided_le := min_le_right _ _
  sep := hb.sep.trimBelow f
  inside := by
    intro q hq
    obtain ⟨hlt, r, hr, rfl⟩ := mem_trimBelow hq
    have := hb.hole hr
    rw [raise_data_length, raise_baseOffset]
    refine ⟨le_max_right _ _, ?_⟩
    simp only at hlt ⊢
    omega

/-- Trimming a list that starts at or above `f` changes nothing. -/
theorem trimBelow_of_le {l : List (Nat × Nat)} {f : Nat} (hl : ∀ h ∈ l, f ≤ h.1 ∧ h.1 < h.2) :
    trimBelow f l = l := by
  induction l with
  | nil => rfl
  | cons h l ih =>
    obtain ⟨hh, hl⟩ := List.forall_mem_cons.mp hl
    unfold trimBelow at ih ⊢
    rw [List.filterMap_cons, if_neg (by omega), ih hl, max_eq_left hh.1]

/-- Trimming a list that ends at or below `f` empties it. -/
theorem trimBelow_of_ge {l : List (Nat × Nat)} {f : Nat} (hl : ∀ h ∈ l, h.2 ≤ f) :
    trimBelow f l = [] := by
  unfold trimBelow
  rw [List.filterMap_eq_nil_iff]
  exact fun h hm => if_pos (hl h hm)

theorem Shape.raise_self {b : TranscriptBuffer} (hb : b.Shape) : b.raise b.baseOffset = b := by
  have h1 : b.receivedBelow b.baseOffset = 0 := by
    unfold receivedBelow
    omega
  unfold TranscriptBuffer.raise
  rw [h1, satAdd_zero hb.elided_le, Nat.sub_self, List.drop_zero,
    trimBelow_of_le fun h hm => ⟨(hb.hole hm).1, (hb.hole hm).2.1⟩]

/-- The hole bytes below `f`, as the sum that `receivedBelow` subtracts. -/
theorem Shape.hole_bytes_below {b : TranscriptBuffer} (hb : b.Shape) {f : Nat}
    (hf : ∀ h ∈ b.holes, h.2 ≤ f) :
    (b.holes.map fun hole => min hole.2 f - max hole.1 b.baseOffset).sum = total b.holes := by
  unfold total
  congr 1
  apply List.map_congr_left
  intro h hm
  rw [min_eq_left (hf h hm), max_eq_left (hb.hole hm).1]

theorem sum_map_le_sum {l : List (Nat × Nat)} {g k : Nat × Nat → Nat}
    (h : ∀ r ∈ l, g r ≤ k r) : (l.map g).sum ≤ (l.map k).sum := by
  induction l with
  | nil => exact Nat.le_refl _
  | cons r l ih =>
    obtain ⟨hr, hl⟩ := List.forall_mem_cons.mp h
    rw [List.map_cons, List.map_cons, List.sum_cons, List.sum_cons]
    exact Nat.add_le_add hr (ih hl)

/-- **`advance_base` raises the floor**, in both of its branches. -/
theorem Shape.advanceBase_eq {b : TranscriptBuffer} (hb : b.Shape) {f : Nat}
    (hf : b.baseOffset < f) : b.advanceBase f = some (b.raise f) := by
  unfold advanceBase
  rw [hb.spanEnd_eq]
  split
  · rename_i hle
    have hends : ∀ h ∈ b.holes, h.2 ≤ f := fun h hm => by
      have := hb.hole hm
      omega
    have hrec : b.receivedBelow f = b.data.length - total b.holes := by
      unfold receivedBelow
      rw [hb.hole_bytes_below hends, min_eq_right (by omega)]
    unfold TranscriptBuffer.raise
    rw [hb.totalHoleBytes_eq, hrec, trimBelow_of_ge hends, List.drop_of_length_le (by omega)]
    rfl
  · rename_i hlt
    have hsum : (b.holes.map fun hole => min hole.2 f - max hole.1 b.baseOffset).sum ≤
        total b.holes := by
      unfold total
      apply sum_map_le_sum
      intro r _
      omega
    have h1 := hb.total_le
    have h2 := hb.end_le
    have h3 := hb.high_le
    have hrec : b.receivedBelow f = f - b.baseOffset -
        (b.holes.map fun hole => min hole.2 f - max hole.1 b.baseOffset).sum := by
      unfold receivedBelow
      rw [min_eq_left (by omega)]
    unfold TranscriptBuffer.raise
    rw [subOr_eq (le_of_lt hf), hrec]
    simp only [Option.bind_eq_bind, Option.bind_some]
    rw [drainTo_eq (by omega), foldl_satAdd _ _ (by omega), Nat.zero_add]
    rfl

/-- The end of the last hole, or the floor when there is none. -/
def lastHoleEnd (b : TranscriptBuffer) : Nat :=
  match b.holes.getLast? with
  | some h => h.2
  | none => b.baseOffset

/-- A point of a hole lies before the end of the last hole. -/
theorem Shape.hole_le_last {b : TranscriptBuffer} (hb : b.Shape) {h : Nat × Nat}
    (hm : h ∈ b.holes) : h.2 ≤ b.lastHoleEnd := by
  obtain ⟨l, x, hl⟩ := List.eq_nil_or_concat b.holes |>.resolve_left (List.ne_nil_of_mem hm)
  rw [List.concat_eq_append] at hl
  have hsep := hb.sep
  have hlast : b.lastHoleEnd = x.2 := by
    unfold lastHoleEnd
    rw [hl, List.getLast?_concat]
  rw [hl] at hm hsep
  rcases List.mem_append.mp hm with hm | hm
  · have h1 := (List.pairwise_append.mp hsep.apart).2.2 h hm x List.mem_cons_self
    have h2 := hsep.proper x (List.mem_append_right _ List.mem_cons_self)
    omega
  · rw [hlast, List.mem_singleton.mp hm]

theorem Shape.lastHoleEnd_mem {b : TranscriptBuffer} (hb : b.Shape) :
    b.baseOffset ≤ b.lastHoleEnd ∧ b.lastHoleEnd ≤ b.baseOffset + b.data.length := by
  unfold lastHoleEnd
  split
  · rename_i h hl
    have := hb.hole (List.mem_of_getLast? hl)
    omega
  · omega

/-- **`collapse_to_newest` raises the floor to the end of the last hole.** -/
theorem Shape.collapseToNewest_eq {b : TranscriptBuffer} (hb : b.Shape) :
    b.collapseToNewest = some (b.raise b.lastHoleEnd) := by
  have hends := fun h (hm : h ∈ b.holes) => hb.hole_le_last hm
  have hrange := hb.lastHoleEnd_mem
  cases hl : b.holes.getLast? with
  | none =>
    have hlast : b.lastHoleEnd = b.baseOffset := by
      unfold lastHoleEnd
      rw [hl]
    unfold collapseToNewest
    rw [hl, hlast, hb.raise_self]
  | some h =>
    have hlast : b.lastHoleEnd = h.2 := by
      unfold lastHoleEnd
      rw [hl]
    rw [hlast] at hends hrange ⊢
    have hrec : b.receivedBelow h.2 = h.2 - b.baseOffset - total b.holes := by
      unfold receivedBelow
      rw [hb.hole_bytes_below hends, min_eq_left (by omega)]
    unfold collapseToNewest TranscriptBuffer.raise
    rw [hl, hb.totalHoleBytes_eq, hrec, trimBelow_of_ge hends]
    simp only [subOr_eq hrange.1, Option.bind_eq_bind, Option.bind_some]
    rw [drainTo_eq (by omega)]
    rfl

/-! ## Writing -/

theorem subtractRangeFromHoles_eq (holes : List (Nat × Nat)) (start stop : Nat) :
    subtractRangeFromHoles holes start stop = subtract holes start stop := rfl

/-- The bytes of the span once it reaches to `stop`. -/
def extended (b : TranscriptBuffer) (stop : Nat) : List UInt8 :=
  if b.baseOffset + b.data.length < stop then resize b.data (stop - b.baseOffset) 0 else b.data

/-- The holes once a gap before `writeOffset` counts as one. -/
def gapped (b : TranscriptBuffer) (writeOffset : Nat) : List (Nat × Nat) :=
  if b.baseOffset + b.data.length < writeOffset then
    b.holes ++ [(b.baseOffset + b.data.length, writeOffset)]
  else b.holes

/-- The buffer with `bytes` written at the logical offset `writeOffset`. -/
def write (b : TranscriptBuffer) (writeOffset : Nat) (bytes : List UInt8) : TranscriptBuffer :=
  { b with
    data := (b.extended (writeOffset + bytes.length)).take (writeOffset - b.baseOffset) ++ bytes ++
      (b.extended (writeOffset + bytes.length)).drop
        (writeOffset - b.baseOffset + bytes.length)
    holes := subtract (b.gapped writeOffset) writeOffset (writeOffset + bytes.length) }

@[simp] theorem write_baseOffset (b : TranscriptBuffer) (o : Nat) (bs : List UInt8) :
    (b.write o bs).baseOffset = b.baseOffset := rfl

@[simp] theorem write_highWater (b : TranscriptBuffer) (o : Nat) (bs : List UInt8) :
    (b.write o bs).highWater = b.highWater := rfl

@[simp] theorem write_maxBytes (b : TranscriptBuffer) (o : Nat) (bs : List UInt8) :
    (b.write o bs).maxBytes = b.maxBytes := rfl

theorem extended_length (b : TranscriptBuffer) (stop : Nat) :
    (b.extended stop).length = max b.data.length (stop - b.baseOffset) := by
  unfold extended
  split
  · rw [length_resize]
    omega
  · omega

/-- The span after a write reaches at least to the end of the write. -/
theorem write_data_length {b : TranscriptBuffer} {o : Nat} (bs : List UInt8)
    (ho : b.baseOffset ≤ o) :
    (b.write o bs).data.length = max b.data.length (o + bs.length - b.baseOffset) := by
  have he := b.extended_length (o + bs.length)
  unfold write
  rw [List.length_append, List.length_append, List.length_take, List.length_drop]
  omega

theorem Shape.gapped_sep {b : TranscriptBuffer} (hb : b.Shape) (o : Nat) :
    Separated (b.gapped o) := by
  unfold gapped
  split
  · rename_i hlt
    refine hb.sep.append (separated_singleton hlt) fun r hr q hq => ?_
    rw [List.mem_singleton.mp hq]
    exact (hb.hole hr).2.2
  · exact hb.sep

theorem Shape.mem_gapped {b : TranscriptBuffer} (hb : b.Shape) {o : Nat} {h : Nat × Nat}
    (hm : h ∈ b.gapped o) :
    b.baseOffset ≤ h.1 ∧ (h.2 < b.baseOffset + b.data.length ∨ h.2 ≤ o) := by
  unfold gapped at hm
  split at hm
  · rcases List.mem_append.mp hm with hm | hm
    · exact ⟨(hb.hole hm).1, Or.inl (hb.hole hm).2.2⟩
    · rw [List.mem_singleton.mp hm]
      exact ⟨Nat.le_add_right _ _, Or.inr (Nat.le_refl _)⟩
  · exact ⟨(hb.hole hm).1, Or.inl (hb.hole hm).2.2⟩

theorem Shape.write {b : TranscriptBuffer} (hb : b.Shape) {o : Nat} {bs : List UInt8}
    (ho : b.baseOffset ≤ o) (hne : 0 < bs.length) (hcap : o + bs.length ≤ b.baseOffset + b.maxBytes)
    (hhigh : o + bs.length ≤ b.highWater) : (b.write o bs).Shape where
  len_le := by
    have := hb.len_le
    rw [write_data_length bs ho, write_maxBytes]
    omega
  end_le := by
    have := hb.end_le
    rw [write_data_length bs ho, write_baseOffset, write_highWater]
    omega
  high_le := hb.high_le
  elided_le := hb.elided_le
  sep := (hb.gapped_sep o).subtract (by omega)
  inside := by
    intro q hq
    obtain ⟨r, hr, h1, h2⟩ := mem_subtract hq
    have := hb.mem_gapped hr
    rw [write_data_length bs ho, write_baseOffset]
    omega

/-- Step 6: collapse once there are too many holes. -/
def bounded (b : TranscriptBuffer) : TranscriptBuffer :=
  if maxHoleRanges < b.holes.length then b.raise b.lastHoleEnd else b

/-- **Steps 3 to 6 of `apply_delta`**: a write, then the bound on the holes. -/
theorem Shape.mergeWrite_eq {b : TranscriptBuffer} (hb : b.Shape) {o : Nat} {bs : List UInt8}
    (ho : b.baseOffset ≤ o) (hne : 0 < bs.length) (hcap : o + bs.length ≤ b.baseOffset + b.maxBytes)
    (hhigh : o + bs.length ≤ b.highWater) :
    b.mergeWrite o (o + bs.length) bs = some (b.write o bs).bounded := by
  have hw := hb.write ho hne hcap hhigh
  have hext : b.extendSpan (o + bs.length) = some (b.extended (o + bs.length)) := by
    unfold extendSpan extended
    rw [hb.spanEnd_eq, subOr_eq (by omega)]
    split <;> rfl
  have hlen := b.extended_length (o + bs.length)
  unfold mergeWrite bounded
  rw [hb.spanEnd_eq, hext]
  simp only [Option.bind_eq_bind, Option.bind_some, subOr_eq ho]
  rw [copyInto_eq (by omega)]
  simp only [Option.bind_some, subtractRangeFromHoles_eq]
  show (if maxHoleRanges < (b.write o bs).holes.length then (b.write o bs).collapseToNewest
    else some (b.write o bs)) = _
  rw [hw.collapseToNewest_eq]
  split <;> rfl

/-! ## What `apply_delta` can do -/

/-- The floor `apply_delta` makes room at for a delta that ends at `stop`. -/
def floorFor (b : TranscriptBuffer) (stop : Nat) : Nat := max b.baseOffset (stop - b.maxBytes)

/-- The buffer once `high_water` counts an end at `stop`. -/
def reach (b : TranscriptBuffer) (stop : Nat) : TranscriptBuffer :=
  { b with highWater := max b.highWater stop }

/-- The buffer with `n` more bytes counted as elided. -/
def elide (b : TranscriptBuffer) (n : Nat) : TranscriptBuffer :=
  { b with elidedBytes := satAdd b.elidedBytes n }

/-- The buffer with room made for a delta that ends at `stop`. -/
def roomFor (b : TranscriptBuffer) (stop : Nat) : TranscriptBuffer :=
  (b.reach stop).raise (b.floorFor stop)

/-- The buffer with the part of the delta above the floor written, before Step 6. -/
def placed (b : TranscriptBuffer) (offset : Nat) (bytes : List UInt8) : TranscriptBuffer :=
  let f := b.floorFor (offset + bytes.length)
  ((b.roomFor (offset + bytes.length)).elide (f - offset)).write (max f offset)
    (bytes.drop (f - offset))

/-- What a call of `apply_delta` can do. -/
inductive DeltaStep (b : TranscriptBuffer) (offset : Nat) (bytes : List UInt8) :
    TranscriptBuffer → Prop
  /-- The end overflows: nothing changes. -/
  | overflow (h : u64Max < offset + bytes.length) : DeltaStep b offset bytes b
  /-- No bytes: only `high_water` and the fold. -/
  | empty (h : offset + bytes.length ≤ u64Max) (he : bytes = []) :
      DeltaStep b offset bytes ((b.reach (offset + bytes.length)).foldActivity bytes)
  /-- All of it below the floor: counted as elided, not folded. -/
  | below (h : offset + bytes.length ≤ u64Max) (hne : 0 < bytes.length)
      (hf : offset + bytes.length ≤ b.floorFor (offset + bytes.length)) :
      DeltaStep b offset bytes ((b.roomFor (offset + bytes.length)).elide bytes.length)
  /-- Merged. -/
  | merged (h : offset + bytes.length ≤ u64Max) (hne : 0 < bytes.length)
      (hf : b.floorFor (offset + bytes.length) < offset + bytes.length) :
      DeltaStep b offset bytes ((b.placed offset bytes).bounded.foldActivity bytes)

theorem Shape.reach {b : TranscriptBuffer} (hb : b.Shape) {stop : Nat} (h : stop ≤ u64Max) :
    (b.reach stop).Shape where
  len_le := hb.len_le
  end_le := le_trans hb.end_le (le_max_left _ _)
  high_le := max_le hb.high_le h
  elided_le := hb.elided_le
  sep := hb.sep
  inside := hb.inside

theorem Shape.elide {b : TranscriptBuffer} (hb : b.Shape) (n : Nat) : (b.elide n).Shape where
  len_le := hb.len_le
  end_le := hb.end_le
  high_le := hb.high_le
  elided_le := min_le_right _ _
  sep := hb.sep
  inside := hb.inside

@[simp] theorem foldActivity_baseOffset (b : TranscriptBuffer) (bytes : List UInt8) :
    (b.foldActivity bytes).baseOffset = b.baseOffset := rfl

@[simp] theorem foldActivity_data (b : TranscriptBuffer) (bytes : List UInt8) :
    (b.foldActivity bytes).data = b.data := rfl

@[simp] theorem foldActivity_highWater (b : TranscriptBuffer) (bytes : List UInt8) :
    (b.foldActivity bytes).highWater = b.highWater := rfl

@[simp] theorem foldActivity_maxBytes (b : TranscriptBuffer) (bytes : List UInt8) :
    (b.foldActivity bytes).maxBytes = b.maxBytes := rfl

theorem Shape.foldActivity {b : TranscriptBuffer} (hb : b.Shape) (bytes : List UInt8) :
    (b.foldActivity bytes).Shape where
  len_le := hb.len_le
  end_le := hb.end_le
  high_le := hb.high_le
  elided_le := hb.elided_le
  sep := hb.sep
  inside := hb.inside

theorem Shape.floorFor_le {b : TranscriptBuffer} (hb : b.Shape) (stop : Nat) :
    b.floorFor stop ≤ (b.reach stop).highWater :=
  max_le_max hb.base_le (Nat.sub_le _ _)

theorem Shape.roomFor {b : TranscriptBuffer} (hb : b.Shape) {stop : Nat} (h : stop ≤ u64Max) :
    (b.roomFor stop).Shape :=
  (hb.reach h).raise (le_max_left _ _) (hb.floorFor_le stop)

/-- **Step 1 raises the floor to `floorFor`**, also when there is room already. -/
theorem Shape.ringTail_eq {b : TranscriptBuffer} (hb : b.Shape) (stop : Nat) :
    b.ringTail stop = some (b.raise (b.floorFor stop)) := by
  unfold ringTail floorFor
  by_cases hlt : b.baseOffset < stop - b.maxBytes
  · rw [max_eq_right (le_of_lt hlt), ← hb.advanceBase_eq hlt]
    exact if_pos hlt
  · rw [max_eq_left (not_lt.mp hlt), hb.raise_self]
    exact if_neg hlt

/-- **Step 2 drops the clipped bytes**, none of them for a delta that starts above the floor. -/
theorem Shape.clipToFloor_eq {b : TranscriptBuffer} (hb : b.Shape) {offset : Nat}
    {bytes : List UInt8} (h : b.baseOffset < offset + bytes.length) :
    b.clipToFloor offset bytes = some (b.elide (b.baseOffset - offset), max b.baseOffset offset,
      bytes.drop (b.baseOffset - offset)) := by
  unfold clipToFloor
  split
  · rename_i hlt
    rw [subOr_eq (le_of_lt hlt), max_eq_left (le_of_lt hlt)]
    simp only [Option.bind_eq_bind, Option.bind_some]
    rw [sliceFrom_eq (by omega)]
    rfl
  · rename_i hge
    rw [max_eq_right (not_lt.mp hge), Nat.sub_eq_zero_of_le (not_lt.mp hge), List.drop_zero]
    unfold TranscriptBuffer.elide
    rw [satAdd_zero hb.elided_le]

/-- The part of a delta above the floor fits the span. -/
theorem placed_fits {b : TranscriptBuffer} {offset : Nat} {bytes : List UInt8}
    (hne : 0 < bytes.length)
    (hf : b.floorFor (offset + bytes.length) < offset + bytes.length) :
    let f := b.floorFor (offset + bytes.length)
    max f offset + (bytes.drop (f - offset)).length = offset + bytes.length ∧
      0 < (bytes.drop (f - offset)).length ∧ offset + bytes.length ≤ f + b.maxBytes := by
  intro f
  have hcap : offset + bytes.length - b.maxBytes ≤ f := le_max_right _ _
  have hlt : f < offset + bytes.length := hf
  rw [List.length_drop]
  omega

theorem Shape.placed {b : TranscriptBuffer} (hb : b.Shape) {offset : Nat} {bytes : List UInt8}
    (h : offset + bytes.length ≤ u64Max) (hne : 0 < bytes.length)
    (hf : b.floorFor (offset + bytes.length) < offset + bytes.length) :
    (b.placed offset bytes).Shape := by
  obtain ⟨hstop, hne, hcap⟩ := placed_fits hne hf
  refine ((hb.roomFor h).elide _).write (le_max_left _ _) hne ?_ ?_
  · rw [hstop]
    exact hcap
  · rw [hstop]
    exact le_max_right _ _

theorem Shape.bounded {b : TranscriptBuffer} (hb : b.Shape) : b.bounded.Shape := by
  unfold TranscriptBuffer.bounded
  split
  · exact hb.raise hb.lastHoleEnd_mem.1 (le_trans hb.lastHoleEnd_mem.2 hb.end_le)
  · exact hb

/-- Raising the floor to the end of the last hole leaves no hole. -/
theorem Shape.raise_last_holes {b : TranscriptBuffer} (hb : b.Shape) :
    (b.raise b.lastHoleEnd).holes = [] :=
  trimBelow_of_ge fun _ hm => hb.hole_le_last hm

theorem Shape.bounded_wf {b : TranscriptBuffer} (hb : b.Shape) : b.bounded.WF where
  toShape := hb.bounded
  few := by
    unfold TranscriptBuffer.bounded
    split
    · rw [hb.raise_last_holes]
      exact Nat.zero_le _
    · omega

/-- **`apply_delta` returns, and does one of four things.** -/
theorem Shape.applyDelta_step {b : TranscriptBuffer} (hb : b.Shape) (offset : Nat)
    (bytes : List UInt8) :
    ∃ b', b.applyDelta offset bytes = some b' ∧ DeltaStep b offset bytes b' := by
  unfold applyDelta checkedAdd
  by_cases h : offset + bytes.length ≤ u64Max
  · simp only [if_pos h]
    by_cases he : bytes.length = 0
    · rw [if_pos he]
      exact ⟨_, rfl, .empty h (List.length_eq_zero_iff.mp he)⟩
    · have hne : 0 < bytes.length := Nat.pos_of_ne_zero he
      have hring : (b.reach (offset + bytes.length)).ringTail (offset + bytes.length) =
          some (b.roomFor (offset + bytes.length)) := (hb.reach h).ringTail_eq _
      rw [if_neg he]
      show ∃ b', ((b.reach (offset + bytes.length)).ringTail (offset + bytes.length)).bind _ =
        some b' ∧ _
      rw [hring, Option.bind_some]
      by_cases hf : offset + bytes.length ≤ b.floorFor (offset + bytes.length)
      · refine ⟨_, if_pos hf, ?_⟩
        exact .below h hne hf
      · have hlt := not_le.mp hf
        obtain ⟨hstop, hpos, hcap⟩ := placed_fits hne hlt
        have hroom := hb.roomFor h
        have hmerge := (hroom.elide (b.floorFor (offset + bytes.length) - offset)).mergeWrite_eq
          (le_max_left (b.floorFor (offset + bytes.length)) offset) hpos
          (by rw [hstop]; exact hcap) (by rw [hstop]; exact le_max_right _ _)
        rw [hstop] at hmerge
        have hclip := hroom.clipToFloor_eq hlt
        refine ⟨_, ?_, .merged h hne hlt⟩
        refine (if_neg hf).trans ?_
        rw [hclip]
        simp only [Option.bind_eq_bind, Option.bind_some]
        rw [show (b.roomFor (offset + bytes.length)).baseOffset =
          b.floorFor (offset + bytes.length) from rfl, hmerge]
        rfl
  · simp only [if_neg h]
    exact ⟨b, rfl, .overflow (not_le.mp h)⟩

/-! ## The invariant over runs -/

theorem WF.foldActivity {b : TranscriptBuffer} (hb : b.WF) (bytes : List UInt8) : (b.foldActivity bytes).WF :=
  ⟨hb.toShape.foldActivity bytes, hb.few⟩

theorem DeltaStep.wf {b b' : TranscriptBuffer} {offset : Nat} {bytes : List UInt8} (hb : b.WF)
    (hs : DeltaStep b offset bytes b') : b'.WF := by
  cases hs with
  | overflow => exact hb
  | empty h he => exact ⟨(hb.reach h).foldActivity bytes, hb.few⟩
  | below h hne hf =>
    exact ⟨(hb.roomFor h).elide _, le_trans (length_trimBelow_le _ _) hb.few⟩
  | merged h hne hf => exact (hb.placed h hne hf).bounded_wf.foldActivity bytes

@[simp] theorem bounded_highWater (b : TranscriptBuffer) : b.bounded.highWater = b.highWater := by
  unfold bounded
  split <;> rfl

@[simp] theorem bounded_maxBytes (b : TranscriptBuffer) : b.bounded.maxBytes = b.maxBytes := by
  unfold bounded
  split <;> rfl

/-- `high_water` is the largest end of a delta that did not overflow. -/
theorem DeltaStep.highWater_eq {b b' : TranscriptBuffer} {offset : Nat} {bytes : List UInt8}
    (hs : DeltaStep b offset bytes b') :
    b'.highWater = if offset + bytes.length ≤ u64Max then max b.highWater (offset + bytes.length)
      else b.highWater := by
  cases hs with
  | overflow h => rw [if_neg (not_le.mpr h)]
  | empty h he => rw [if_pos h]; rfl
  | below h hne hf => rw [if_pos h]; rfl
  | merged h hne hf =>
    rw [if_pos h, foldActivity_highWater, bounded_highWater]
    rfl

/-- The floor never drops. -/
theorem DeltaStep.base_le {b b' : TranscriptBuffer} {offset : Nat} {bytes : List UInt8}
    (hs : DeltaStep b offset bytes b') (hb : b.Shape) : b.baseOffset ≤ b'.baseOffset := by
  cases hs with
  | overflow => exact le_refl _
  | empty => exact le_refl _
  | below => exact le_max_left _ _
  | merged h hne hf =>
    refine le_trans (le_max_left _ _ : b.baseOffset ≤ b.floorFor (offset + bytes.length)) ?_
    change (b.placed offset bytes).baseOffset ≤ _
    rw [foldActivity_baseOffset]
    unfold TranscriptBuffer.bounded
    split
    · exact (hb.placed h hne hf).lastHoleEnd_mem.1
    · exact le_refl _

theorem DeltaStep.maxBytes_eq {b b' : TranscriptBuffer} {offset : Nat} {bytes : List UInt8}
    (hs : DeltaStep b offset bytes b') : b'.maxBytes = b.maxBytes := by
  cases hs with
  | overflow => rfl
  | empty => rfl
  | below => rfl
  | merged h hne hf =>
    rw [foldActivity_maxBytes, bounded_maxBytes]
    rfl

theorem WF.clear {b : TranscriptBuffer} (hb : b.WF) : b.clear.1.WF where
  len_le := Nat.zero_le _
  end_le := Nat.le_refl _
  high_le := hb.high_le
  elided_le := hb.elided_le
  sep := separated_nil
  inside := fun _ h => absurd h List.not_mem_nil
  few := Nat.zero_le _

/-- **A call returns, keeps the invariant and never lowers `high_water`.** -/
theorem WF.call {b : TranscriptBuffer} (hb : b.WF) (c : BufferCall) :
    ∃ b', b.call c = some b' ∧ b'.WF ∧ b.highWater ≤ b'.highWater ∧
      b'.maxBytes = b.maxBytes := by
  cases c with
  | applyDelta offset bytes =>
    obtain ⟨b', hb', hs⟩ := hb.applyDelta_step offset bytes
    refine ⟨b', hb', hs.wf hb, ?_, hs.maxBytes_eq⟩
    rw [hs.highWater_eq]
    split
    · exact le_max_left _ _
    · exact Nat.le_refl _
  | clear => exact ⟨b.clear.1, rfl, hb.clear, Nat.le_refl _, rfl⟩

/-- **Every run from a well-formed buffer returns a well-formed one.** -/
theorem WF.calls {b : TranscriptBuffer} (hb : b.WF) (cs : List BufferCall) :
    ∃ b', b.calls cs = some b' ∧ b'.WF ∧ b'.maxBytes = b.maxBytes := by
  induction cs generalizing b with
  | nil => exact ⟨b, rfl, hb, rfl⟩
  | cons c cs ih =>
    obtain ⟨b1, h1, hw1, -, hm1⟩ := hb.call c
    obtain ⟨b2, h2, hw2, hm2⟩ := ih hw1
    refine ⟨b2, ?_, hw2, hm2.trans hm1⟩
    unfold TranscriptBuffer.calls at h2 ⊢
    rw [List.foldlM_cons, h1]
    exact h2

/-! ## Reading -/

theorem Shape.contiguousRunStartRel_eq {b : TranscriptBuffer} (hb : b.Shape) :
    b.contiguousRunStartRel = some (b.lastHoleEnd - b.baseOffset) := by
  have hrange := hb.lastHoleEnd_mem
  unfold contiguousRunStartRel
  unfold lastHoleEnd at hrange ⊢
  cases hl : b.holes.getLast? with
  | some h =>
    rw [hl] at hrange
    exact subOr_eq hrange.1
  | none => rw [Nat.sub_self]

/-- **`contiguous_tail` returns the end of the run after the last hole.** -/
theorem Shape.contiguousTail_eq {b : TranscriptBuffer} (hb : b.Shape) (window : Nat) :
    b.contiguousTail window = some (if b.data = [] ∨ window = 0 then none
      else some (b.data.drop (b.data.length -
        min window (b.baseOffset + b.data.length - b.lastHoleEnd)))) := by
  have hrange := hb.lastHoleEnd_mem
  unfold contiguousTail
  split
  · rfl
  · have havail : b.data.length - (b.lastHoleEnd - b.baseOffset) =
        b.baseOffset + b.data.length - b.lastHoleEnd := by omega
    rw [hb.contiguousRunStartRel_eq]
    simp only [Option.bind_eq_bind, Option.bind_some]
    rw [subOr_eq (by omega), Option.bind_some, havail, subOr_eq (by omega), Option.bind_some]
    unfold snapshotBlock
    rw [sliceFrom_eq (Nat.sub_le _ _)]
    rfl

/-- **`snapshot` returns the run after the last hole**, with the buffer's own metadata. -/
theorem Shape.snapshot_eq {b : TranscriptBuffer} (hb : b.Shape) :
    b.snapshot = some
      { bytes := b.data.drop (b.lastHoleEnd - b.baseOffset)
        baseOffset := b.baseOffset
        highWater := b.highWater
        elidedBytes := b.elidedBytes
        holes := b.holes } := by
  have hrange := hb.lastHoleEnd_mem
  have hbytes : b.snapshotBytes = some (b.data.drop (b.lastHoleEnd - b.baseOffset)) := by
    unfold snapshotBytes
    split
    · rename_i h
      rw [h, List.drop_nil]
    · rw [hb.contiguousRunStartRel_eq, Option.bind_some]
      exact sliceFrom_eq (by omega)
  unfold snapshot
  rw [hbytes]
  rfl

/-- **No run reaches a panic or leaves the invariant.** From a fresh buffer every sequence of calls
returns; in the state it reaches the representation invariant holds, both readers return, and
whatever call comes next returns too without lowering `high_water`. -/
theorem run_safe (maxBytes : Nat) (scanner : SignatureScanner) (cs : List BufferCall) :
    ∃ b, (new maxBytes scanner).calls cs = some b ∧ b.maxBytes = maxBytes ∧ b.WF ∧
      (∀ window, ∃ tail, b.contiguousTail window = some tail) ∧
      (∃ snap, b.snapshot = some snap) ∧
      ∀ c, ∃ b', b.call c = some b' ∧ b.highWater ≤ b'.highWater := by
  obtain ⟨b, hrun, hb, hmax⟩ := (new_wf maxBytes scanner).calls cs
  refine ⟨b, hrun, hmax, hb, fun w => ⟨_, hb.contiguousTail_eq w⟩, ⟨_, hb.snapshot_eq⟩, ?_⟩
  intro c
  obtain ⟨b', h, -, hh, -⟩ := hb.call c
  exact ⟨b', h, hh⟩

end Unimatrix.TranscriptBuffer
