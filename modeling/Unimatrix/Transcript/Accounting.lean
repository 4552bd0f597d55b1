import Unimatrix.Transcript.Content

/-!
# The byte accounting of `TranscriptBuffer`

`held b` is the set of offsets whose byte the buffer holds, and `accounted b` counts the elided bytes and
those. Four places of `apply_delta` add to `elided_bytes`; each one moves bytes out of `held` and counts
them, or counts bytes that never come in (`Grew`):

* raising the floor, in `advance_base` and in `collapse_to_newest` (`Shape.grew_raise`);
* the part of a delta below the floor (`Shape.grew_elide`);
* a write brings in at most its length, and exactly that where nothing was held (`Shape.grew_write`).

Headline: **`received_accounted`**, what is accounted for never exceeds what was received, and equals it
when the deltas never meet.
-/

namespace Unimatrix.TranscriptBuffer

open Machine Intervals WriteLog

/-! ## The bytes held -/

/-- The offsets whose byte the buffer holds. -/
def held (b : TranscriptBuffer) : Finset Nat :=
  (Finset.Ico b.baseOffset (b.baseOffset + b.data.length)).filter fun x => ¬ Covers b.holes x

theorem mem_held {b : TranscriptBuffer} {x : Nat} : x ∈ b.held ↔ (b.cell x).isSome := by
  unfold held cell
  rw [Finset.mem_filter, Finset.mem_Ico]
  split
  · rename_i h
    rw [isSome_getElem?]
    have := h.1
    constructor
    · rintro ⟨⟨-, hlt⟩, -⟩
      omega
    · exact fun hlt => ⟨⟨h.1, by omega⟩, h.2⟩
  · rename_i h
    exact ⟨fun hx => absurd ⟨hx.1.1, hx.2⟩ h, fun hx => by cases hx⟩

/-- The bytes held below `f` are the received bytes there. -/
theorem Shape.card_held_below {b : TranscriptBuffer} (hb : b.Shape) (f : Nat) :
    (b.held.filter (· < f)).card = b.receivedBelow f := by
  have hsplit := Finset.card_filter_add_card_filter_not
    (s := Finset.Ico b.baseOffset (min (b.baseOffset + b.data.length) f)) (p := Covers b.holes)
  have hset : b.held.filter (· < f) =
      (Finset.Ico b.baseOffset (min (b.baseOffset + b.data.length) f)).filter
        fun x => ¬ Covers b.holes x := by
    ext x
    simp only [held, Finset.mem_filter, Finset.mem_Ico, lt_min_iff]
    tauto
  have hholes : (b.holes.map fun r =>
      min r.2 (min (b.baseOffset + b.data.length) f) - max r.1 b.baseOffset) =
      b.holes.map fun r => min r.2 f - max r.1 b.baseOffset := by
    refine List.map_congr_left fun r hr => ?_
    have := (hb.hole hr).2.2
    omega
  rw [card_covered hb.sep, Nat.card_Ico, hholes] at hsplit
  unfold receivedBelow
  rw [hset]
  omega

/-- The span, less its holes. -/
theorem Shape.card_held {b : TranscriptBuffer} (hb : b.Shape) :
    b.held.card = b.data.length - total b.holes := by
  have hall : b.held.filter (· < b.baseOffset + b.data.length) = b.held := by
    refine Finset.filter_true_of_mem fun x hx => ?_
    exact (Finset.mem_Ico.mp (Finset.mem_filter.mp hx).1).2
  have hends : ∀ h ∈ b.holes, h.2 ≤ b.baseOffset + b.data.length := fun h hm =>
    le_of_lt (hb.hole hm).2.2
  have hbelow := hb.card_held_below (b.baseOffset + b.data.length)
  unfold receivedBelow at hbelow
  rw [hall, hb.hole_bytes_below hends] at hbelow
  omega

/-- Raising the floor drops what is held below it. -/
theorem held_raise {b : TranscriptBuffer} {f : Nat} (hf : b.baseOffset ≤ f) :
    (b.raise f).held = b.held.filter fun x => ¬ x < f := by
  ext x
  rw [Finset.mem_filter, mem_held, mem_held, cell_raise hf, not_lt]
  by_cases hx : f ≤ x
  · rw [if_pos hx]
    exact (and_iff_left hx).symm
  · rw [if_neg hx]
    exact ⟨fun h => (by cases h), fun h => absurd h.2 hx⟩

/-- A write brings its offsets in. -/
theorem held_write {b : TranscriptBuffer} {o : Nat} (bs : List UInt8) (ho : b.baseOffset ≤ o) :
    (b.write o bs).held = b.held ∪ Finset.Ico o (o + bs.length) := by
  ext x
  rw [Finset.mem_union, mem_held, mem_held, cell_write bs ho, Finset.mem_Ico]
  split
  · rename_i hx
    rw [isSome_getElem?]
    exact ⟨fun _ => .inr hx, fun _ => by omega⟩
  · rename_i hx
    exact (or_iff_left hx).symm

@[simp] theorem held_reach (b : TranscriptBuffer) (stop : Nat) : (b.reach stop).held = b.held := rfl

@[simp] theorem held_elide (b : TranscriptBuffer) (n : Nat) : (b.elide n).held = b.held := rfl

@[simp] theorem held_foldActivity (b : TranscriptBuffer) (bytes : List UInt8) :
    (b.foldActivity bytes).held = b.held := rfl

/-- Making room drops what is held below the new floor. -/
theorem held_roomFor (b : TranscriptBuffer) (stop : Nat) :
    (b.roomFor stop).held = b.held.filter fun x => ¬ x < b.floorFor stop := by
  have hle : (b.reach stop).baseOffset ≤ b.floorFor stop := le_max_left _ _
  unfold roomFor
  rw [held_raise hle, held_reach]

/-! ## What is accounted for -/

/-- The bytes elided and the bytes held. -/
def accounted (b : TranscriptBuffer) : Nat := b.elidedBytes + b.held.card

@[simp] theorem accounted_foldActivity (b : TranscriptBuffer) (bytes : List UInt8) :
    (b.foldActivity bytes).accounted = b.accounted := rfl

theorem Shape.accounted_eq {b : TranscriptBuffer} (hb : b.Shape) :
    b.accounted = b.elidedBytes + b.data.length - total b.holes := by
  have := hb.total_le
  unfold accounted
  rw [hb.card_held]
  omega

/-- From `b` to `b'` at most `n` more bytes are accounted for, and exactly `n` if they are all `fresh`
and the sum fits. -/
structure Grew (fresh : Prop) (b : TranscriptBuffer) (n : Nat) (b' : TranscriptBuffer) : Prop where
  le : b'.accounted ≤ b.accounted + n
  eq : fresh → b.accounted + n ≤ u64Max → b'.accounted = b.accounted + n

theorem Grew.trans {fresh : Prop} {b b' b'' : TranscriptBuffer} {n m : Nat} (h : Grew fresh b n b')
    (h' : Grew fresh b' m b'') : Grew fresh b (n + m) b'' where
  le := by
    have := h.le
    have := h'.le
    omega
  eq := fun hf hfit => by
    have h₁ := h.eq hf (by omega)
    have h₂ := h'.eq hf (by omega)
    omega

theorem Grew.congr {fresh : Prop} {b b' : TranscriptBuffer} (h : b'.accounted = b.accounted) :
    Grew fresh b 0 b' := ⟨Nat.le_of_eq h, fun _ _ => h⟩

/-- **Raising the floor counts what it drops.** -/
theorem Shape.grew_raise {b : TranscriptBuffer} (hb : b.Shape) {f : Nat} (hf : b.baseOffset ≤ f)
    (fresh : Prop) : Grew fresh b 0 (b.raise f) := by
  have hsplit := Finset.card_filter_add_card_filter_not (s := b.held) (p := (· < f))
  rw [hb.card_held_below f, ← held_raise hf] at hsplit
  have hel : (b.raise f).elidedBytes = satAdd b.elidedBytes (b.receivedBelow f) := rfl
  refine ⟨?_, fun _ hfit => ?_⟩
  · have : satAdd b.elidedBytes (b.receivedBelow f) ≤ _ := min_le_left _ _
    unfold accounted
    omega
  · unfold accounted at hfit ⊢
    rw [hel, satAdd_eq (by omega)]
    omega

/-- Bytes that never come in are counted. -/
theorem grew_elide (b : TranscriptBuffer) (n : Nat) (fresh : Prop) : Grew fresh b n (b.elide n) := by
  have hel : (b.elide n).elidedBytes = satAdd b.elidedBytes n := rfl
  refine ⟨?_, fun _ hfit => ?_⟩
  · have : satAdd b.elidedBytes n ≤ _ := min_le_left _ _
    unfold accounted
    rw [held_elide]
    omega
  · unfold accounted at hfit ⊢
    rw [held_elide, hel, satAdd_eq (by omega)]
    omega

/-- **A write brings in at most its length**, and exactly that over bytes that were not held. -/
theorem grew_write {b : TranscriptBuffer} {o : Nat} (bs : List UInt8) (ho : b.baseOffset ≤ o)
    {fresh : Prop} (h : fresh → ∀ x ∈ b.held, ¬ (o ≤ x ∧ x < o + bs.length)) :
    Grew fresh b bs.length (b.write o bs) := by
  have hcard : (Finset.Ico o (o + bs.length)).card = bs.length := by
    rw [Nat.card_Ico, Nat.add_sub_cancel_left]
  have hel : (b.write o bs).elidedBytes = b.elidedBytes := rfl
  refine ⟨?_, fun hf _ => ?_⟩
  · have := Finset.card_union_le b.held (Finset.Ico o (o + bs.length))
    unfold accounted
    rw [held_write bs ho, hel]
    omega
  · have hapart : Disjoint b.held (Finset.Ico o (o + bs.length)) := by
      rw [Finset.disjoint_left]
      exact fun x hx hin => h hf x hx (Finset.mem_Ico.mp hin)
    unfold accounted
    rw [held_write bs ho, Finset.card_union_of_disjoint hapart, hel]
    omega

/-! ## One call -/

/-- None of the delta's offsets is held. -/
def Unheld (b : TranscriptBuffer) (offset : Nat) (bytes : List UInt8) : Prop :=
  ∀ x ∈ b.held, ¬ (offset ≤ x ∧ x < offset + bytes.length)

theorem Shape.grew_roomFor {b : TranscriptBuffer} (hb : b.Shape) {stop : Nat} (h : stop ≤ u64Max)
    (fresh : Prop) : Grew fresh b 0 (b.roomFor stop) := by
  have hreach : Grew fresh b 0 (b.reach stop) := Grew.congr rfl
  exact hreach.trans ((hb.reach h).grew_raise (le_max_left _ _) fresh)

theorem Shape.grew_bounded {b : TranscriptBuffer} (hb : b.Shape) (fresh : Prop) :
    Grew fresh b 0 b.bounded := by
  unfold TranscriptBuffer.bounded
  split
  · exact hb.grew_raise hb.lastHoleEnd_mem.1 fresh
  · exact Grew.congr rfl

/-- A merged delta: what is clipped is counted, the rest comes in. -/
theorem Shape.grew_placed {b : TranscriptBuffer} (hb : b.Shape) {offset : Nat} {bytes : List UInt8}
    (h : offset + bytes.length ≤ u64Max) (hne : 0 < bytes.length)
    (hf : b.floorFor (offset + bytes.length) < offset + bytes.length) :
    Grew (b.Unheld offset bytes) b bytes.length (b.placed offset bytes) := by
  obtain ⟨hstop, hpos, -⟩ := placed_fits hne hf
  have hroom := hb.grew_roomFor h (b.Unheld offset bytes)
  have hclip := grew_elide (b.roomFor (offset + bytes.length))
    (b.floorFor (offset + bytes.length) - offset) (b.Unheld offset bytes)
  have hwrite := grew_write (b := (b.roomFor (offset + bytes.length)).elide (b.floorFor (offset + bytes.length) - offset))
    (bytes.drop (b.floorFor (offset + bytes.length) - offset))
    (le_max_left (b.floorFor (offset + bytes.length)) offset) fun (hfresh : b.Unheld offset bytes) x hx => by
      rw [held_elide, held_roomFor] at hx
      have := hfresh x (Finset.mem_filter.mp hx).1
      rw [hstop]
      omega
  have hgrew := (hroom.trans hclip).trans hwrite
  rw [List.length_drop, Nat.zero_add] at hgrew
  rw [List.length_drop] at hpos
  rwa [Nat.add_sub_cancel' (by omega)] at hgrew

/-- **A call accounts for the bytes of its delta.** -/
theorem DeltaStep.grew {b b' : TranscriptBuffer} {offset : Nat} {bytes : List UInt8}
    (hb : b.Shape) (hs : DeltaStep b offset bytes b') :
    Grew (offset + bytes.length ≤ u64Max ∧ b.Unheld offset bytes) b bytes.length b' := by
  cases hs with
  | overflow h => exact ⟨Nat.le_add_right _ _, fun hf => absurd hf.1 (not_le.mpr h)⟩
  | empty h he =>
    rw [he]
    exact Grew.congr rfl
  | below h hne hf =>
    have hgrew := (hb.grew_roomFor h (offset + bytes.length ≤ u64Max ∧ b.Unheld offset bytes)).trans
      (grew_elide _ bytes.length _)
    rwa [Nat.zero_add] at hgrew
  | merged h hne hf =>
    have hplaced := hb.grew_placed h hne hf
    have hfold : Grew (b.Unheld offset bytes) (b.placed offset bytes).bounded 0
        ((b.placed offset bytes).bounded.foldActivity bytes) :=
      Grew.congr (accounted_foldActivity _ bytes)
    have hgrew := (hplaced.trans ((hb.placed h hne hf).grew_bounded _)).trans hfold
    exact ⟨hgrew.le, fun hfresh => hgrew.eq hfresh.2⟩

theorem held_raise_subset {b : TranscriptBuffer} {f : Nat} (hf : b.baseOffset ≤ f) :
    (b.raise f).held ⊆ b.held := by
  rw [held_raise hf]
  exact Finset.filter_subset _ _

/-- Only the delta's offsets come in. -/
theorem DeltaStep.held_of {b b' : TranscriptBuffer} {offset : Nat} {bytes : List UInt8}
    (hb : b.Shape) (hs : DeltaStep b offset bytes b') {x : Nat} (hx : x ∈ b'.held) :
    x ∈ b.held ∨ (offset ≤ x ∧ x < offset + bytes.length) := by
  cases hs with
  | overflow h => exact .inl hx
  | empty h he =>
    exact .inl hx
  | below h hne hf =>
    left
    rw [held_elide, held_roomFor] at hx
    exact (Finset.mem_filter.mp hx).1
  | merged h hne hf =>
    have hplaced : x ∈ (b.placed offset bytes).held := by
      rw [held_foldActivity] at hx
      unfold TranscriptBuffer.bounded at hx
      split at hx
      · exact held_raise_subset (hb.placed h hne hf).lastHoleEnd_mem.1 hx
      · exact hx
    have hfloor : b.floorFor (offset + bytes.length) ≤ x :=
      (Finset.mem_Ico.mp (Finset.mem_filter.mp hplaced).1).1
    rw [mem_held, cell_placed hne hf hfloor] at hplaced
    split at hplaced
    · exact .inr ‹_›
    · exact .inl (mem_held.mpr hplaced)

/-! ## Runs -/

/-- The calls that bring `ds` in. -/
def deltaCalls (ds : List (Write UInt8)) : List BufferCall :=
  ds.map fun d => .applyDelta d.offset d.values

/-- What a run of `ds` leaves: nothing is held that no delta brought, and the bytes add up. -/
structure Accounts (ds : List (Write UInt8)) (b : TranscriptBuffer) : Prop where
  wf : b.WF
  held : ∀ x ∈ b.held, Written ds x
  le : b.accounted ≤ volume ds
  eq : (∀ d ∈ ds, d.stop ≤ u64Max) → ds.Pairwise Apart → b.accounted = volume ds

theorem new_accounts (maxBytes : Nat) (scanner : SignatureScanner) :
    Accounts [] (new maxBytes scanner) where
  wf := new_wf maxBytes scanner
  held := fun x hx => absurd hx (Finset.notMem_empty x)
  le := Nat.le_refl _
  eq := fun _ _ => rfl

/-- **One more delta.** -/
theorem Accounts.step {ds : List (Write UInt8)} {b b' : TranscriptBuffer} {d : Write UInt8}
    (h : Accounts ds b) (hs : DeltaStep b d.offset d.values b') : Accounts (ds ++ [d]) b' where
  wf := hs.wf h.wf
  held := fun x hx => by
    rcases hs.held_of h.wf.toShape hx with hx | hx
    · obtain ⟨w, hw, hcov⟩ := h.held x hx
      exact ⟨w, List.mem_append_left _ hw, hcov⟩
    · exact ⟨d, List.mem_append_right _ List.mem_cons_self, hx⟩
  le := by
    rw [volume_concat]
    exact le_trans (hs.grew h.wf.toShape).le (Nat.add_le_add_right h.le _)
  eq := fun hfit hapart => by
    obtain ⟨hds, -, hd⟩ := List.pairwise_append.mp hapart
    have hold := h.eq (fun w hw => hfit w (List.mem_append_left _ hw)) hds
    have hvol := volume_le hapart hfit
    rw [volume_concat] at hvol ⊢
    have hfresh : b.Unheld d.offset d.values := fun x hx hin => by
      obtain ⟨w, hw, hcov⟩ := h.held x hx
      exact hd w hw d List.mem_cons_self x hcov hin
    rw [(hs.grew h.wf.toShape).eq ⟨hfit d (List.mem_append_right _ List.mem_cons_self), hfresh⟩
      (by rw [hold]; exact hvol), hold]

theorem run_accounted (maxBytes : Nat) (scanner : SignatureScanner) (ds : List (Write UInt8)) :
    ∃ b, (new maxBytes scanner).calls (deltaCalls ds) = some b ∧ Accounts ds b := by
  induction ds using List.reverseRecOn with
  | nil => exact ⟨_, rfl, new_accounts maxBytes scanner⟩
  | append_singleton ds d ih =>
    obtain ⟨b, hrun, hb⟩ := ih
    obtain ⟨b', hcall, hs⟩ := hb.wf.toShape.applyDelta_step d.offset d.values
    refine ⟨b', ?_, hb.step hs⟩
    have hone : b.calls (deltaCalls [d]) = some b' := by
      show (b.applyDelta d.offset d.values).bind some = some b'
      rw [hcall]
      rfl
    unfold deltaCalls at hrun hone ⊢
    rw [List.map_append, calls_append, hrun, Option.bind_some, hone]

/-- **Byte accounting.** After every call of a run of deltas on a fresh buffer, the elided bytes and the
span less its holes never exceed what was received so far, and equal it when no delta overflows and no
two of them meet. -/
theorem received_accounted (maxBytes : Nat) (scanner : SignatureScanner) (ds : List (Write UInt8))
    (n : Nat) :
    ∃ b, (new maxBytes scanner).calls (deltaCalls (ds.take n)) = some b ∧
      b.totalHoleBytes = some (total b.holes) ∧ total b.holes ≤ b.data.length ∧
      b.elidedBytes + b.data.length - total b.holes ≤ volume (ds.take n) ∧
      ((∀ d ∈ ds, d.stop ≤ u64Max) → ds.Pairwise Apart →
        volume (ds.take n) = b.elidedBytes + b.data.length - total b.holes) := by
  obtain ⟨b, hrun, hb⟩ := run_accounted maxBytes scanner (ds.take n)
  have hshape := hb.wf.toShape
  refine ⟨b, hrun, hshape.totalHoleBytes_eq, hshape.total_le, hshape.accounted_eq ▸ hb.le,
    fun hfit hapart => ?_⟩
  rw [← hshape.accounted_eq]
  have hfit' : ∀ d ∈ ds.take n, d.stop ≤ u64Max := fun d hd => hfit d (List.mem_of_mem_take hd)
  exact (hb.eq hfit' (hapart.sublist (List.take_sublist n ds))).symm

end Unimatrix.TranscriptBuffer
