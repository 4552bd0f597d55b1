import Unimatrix.Lib.WriteLog
import Unimatrix.Transcript.Invariant

/-!
# What a `TranscriptBuffer` holds: the last write to every retained offset

The abstract reading of a buffer is `cell b x`, the byte it holds at the logical offset `x`, `none`
in a hole and outside the span. The history of a run is the log of its accepted deltas
(`acceptedLog`), newest first.

**`Holds b log`**: from the floor on, the buffer holds at every offset what the newest accepted
delta covering it wrote there, and nothing where no accepted delta ever wrote. A step keeps it
(`Holds.call`), so every run does (`run_holds`): raising the floor forgets offsets, a merge
overlays the delta (`cell_placed`), and a hole is exactly a stretch that was never written.

* `contiguousTail_last_written`: `contiguous_tail` serves last-written bytes only.
* `snapshot_placed_iff`: `snapshot` places its bytes at true logical offsets exactly when the span
  has no hole, or when the run after the last hole repeats the span's first bytes. The bytes of a
  snapshot start after the last hole, its `base_offset` is the floor of the whole span.
-/

namespace Unimatrix.TranscriptBuffer

open Machine Intervals WriteLog

/-- The byte held at the logical offset `x`. -/
def cell (b : TranscriptBuffer) (x : Nat) : Option UInt8 :=
  if b.baseOffset ≤ x ∧ ¬ Covers b.holes x then b.data[x - b.baseOffset]? else none

theorem cell_of_lt {b : TranscriptBuffer} {x : Nat} (h : x < b.baseOffset) : b.cell x = none :=
  if_neg fun hc => absurd hc.1 (not_le.mpr h)

theorem cell_of_hole {b : TranscriptBuffer} {x : Nat} (h : Covers b.holes x) : b.cell x = none :=
  if_neg fun hc => hc.2 h

theorem cell_eq {b : TranscriptBuffer} {x : Nat} (hx : b.baseOffset ≤ x)
    (h : ¬ Covers b.holes x) : b.cell x = b.data[x - b.baseOffset]? :=
  if_pos ⟨hx, h⟩

theorem cell_of_ge {b : TranscriptBuffer} {x : Nat} (h : b.baseOffset + b.data.length ≤ x) :
    b.cell x = none := by
  unfold cell
  split
  · exact List.getElem?_eq_none (by omega)
  · rfl

/-! ## The operations on cells -/

/-- **Raising the floor forgets what is below it** and changes nothing above. -/
theorem cell_raise {b : TranscriptBuffer} {f : Nat} (hf : b.baseOffset ≤ f) (x : Nat) :
    (b.raise f).cell x = if f ≤ x then b.cell x else none := by
  split
  · rename_i hx
    by_cases hc : Covers b.holes x
    · rw [cell_of_hole hc, cell_of_hole (b := b.raise f) (covers_trimBelow.mpr ⟨hc, hx⟩)]
    · have hc' : ¬ Covers (b.raise f).holes x := fun h => hc (covers_trimBelow.mp h).1
      rw [cell_eq (b := b.raise f) hx hc', cell_eq (le_trans hf hx) hc, raise_baseOffset]
      show (b.data.drop (f - b.baseOffset))[x - f]? = _
      rw [List.getElem?_drop]
      congr 1
      omega
  · rename_i hx
    exact cell_of_lt (b := b.raise f) (not_le.mp hx)

/-- Reading the span after a write. -/
theorem write_data_getElem? {b : TranscriptBuffer} {o : Nat} (bs : List UInt8)
    (ho : b.baseOffset ≤ o) {x : Nat} (hx : b.baseOffset ≤ x) :
    (b.write o bs).data[x - b.baseOffset]? =
      if o ≤ x ∧ x < o + bs.length then bs[x - o]?
        else (b.extended (o + bs.length))[x - b.baseOffset]? := by
  have hlen := b.extended_length (o + bs.length)
  show (_ ++ bs ++ _)[x - b.baseOffset]? = _
  rw [getElem?_copied (by omega)]
  by_cases hin : o ≤ x ∧ x < o + bs.length
  · rw [if_pos hin, if_pos (by omega)]
    congr 1
    omega
  · rw [if_neg hin, if_neg (by omega)]

/-- **A write overlays its bytes**; a gap before it holds nothing. -/
theorem cell_write {b : TranscriptBuffer} {o : Nat} (bs : List UInt8)
    (ho : b.baseOffset ≤ o) (x : Nat) :
    (b.write o bs).cell x =
      if o ≤ x ∧ x < o + bs.length then bs[x - o]? else b.cell x := by
  by_cases hx : b.baseOffset ≤ x
  · have hread := write_data_getElem? bs ho hx
    by_cases hin : o ≤ x ∧ x < o + bs.length
    · have hc : ¬ Covers (b.write o bs).holes x := fun h => (covers_subtract.mp h).2 hin
      rw [cell_eq (b := b.write o bs) hx hc, write_baseOffset, hread, if_pos hin, if_pos hin]
    · rw [if_neg hin]
      rw [if_neg hin] at hread
      by_cases hgap : Covers (b.gapped o) x
      · rw [cell_of_hole (b := b.write o bs) (covers_subtract.mpr ⟨hgap, hin⟩)]
        -- a hole of `b`, or the gap past its span
        unfold gapped at hgap
        split at hgap
        · rcases covers_append.mp hgap with h | h
          · rw [cell_of_hole h]
          · obtain ⟨hge, -⟩ := (covers_cons.mp h).resolve_right (covers_nil x)
            rw [cell_of_ge hge]
        · rw [cell_of_hole hgap]
      · have hc : ¬ Covers (b.write o bs).holes x := fun h => hgap (covers_subtract.mp h).1
        have hcb : ¬ Covers b.holes x := fun h => hgap (by
          unfold gapped
          split
          · exact covers_append.mpr (Or.inl h)
          · exact h)
        rw [cell_eq (b := b.write o bs) hx hc, write_baseOffset, hread, cell_eq hx hcb]
        unfold extended
        split
        · rename_i hlt
          by_cases hspan : x < b.baseOffset + b.data.length
          · rw [getElem?_resize_of_lt 0 (by omega) (by omega)]
          · -- past the span, not in the gap and not in the write: past the new span too
            have hx2 : o + bs.length ≤ x := by
              by_contra hlt2
              apply hgap
              unfold gapped
              rw [if_pos (by omega)]
              exact covers_append.mpr (Or.inr (covers_cons.mpr (Or.inl ⟨by omega, by omega⟩)))
            rw [List.getElem?_eq_none (by rw [length_resize]; omega),
              List.getElem?_eq_none (by omega)]
        · rfl
  · rw [cell_of_lt (b := b.write o bs) (not_le.mp hx), cell_of_lt (not_le.mp hx),
      if_neg (by omega)]

/-- The cells of a buffer depend on its floor, its bytes and its holes only. -/
theorem cell_congr {b c : TranscriptBuffer} (h1 : c.baseOffset = b.baseOffset)
    (h2 : c.data = b.data) (h3 : c.holes = b.holes) (x : Nat) : c.cell x = b.cell x := by
  unfold cell
  rw [h1, h2, h3]

theorem cell_roomFor (b : TranscriptBuffer) (stop x : Nat) :
    (b.roomFor stop).cell x = if b.floorFor stop ≤ x then b.cell x else none := by
  have hle : (b.reach stop).baseOffset ≤ b.floorFor stop := le_max_left _ _
  unfold roomFor
  rw [cell_raise hle, cell_congr (b := b) (c := b.reach stop) rfl rfl rfl]

/-- **A merged delta overlays what the buffer held above the new floor.** -/
theorem cell_placed {b : TranscriptBuffer} {offset : Nat} {bytes : List UInt8}
    (hne : 0 < bytes.length)
    (hf : b.floorFor (offset + bytes.length) < offset + bytes.length) {x : Nat}
    (hx : b.floorFor (offset + bytes.length) ≤ x) :
    (b.placed offset bytes).cell x =
      if offset ≤ x ∧ x < offset + bytes.length then bytes[x - offset]? else b.cell x := by
  obtain ⟨hstop, -, -⟩ := placed_fits hne hf
  have hw := cell_write
    (b := (b.roomFor (offset + bytes.length)).elide (b.floorFor (offset + bytes.length) - offset))
    (bytes.drop (b.floorFor (offset + bytes.length) - offset))
    (le_max_left (b.floorFor (offset + bytes.length)) offset) x
  rw [hstop] at hw
  refine hw.trans ?_
  rw [cell_congr (b := b.roomFor (offset + bytes.length)) (c := elide _ _) rfl rfl rfl,
    cell_roomFor, if_pos hx]
  by_cases hin : offset ≤ x ∧ x < offset + bytes.length
  · rw [if_pos hin, if_pos (by omega), List.getElem?_drop]
    congr 1
    omega
  · rw [if_neg hin, if_neg (by omega)]

/-! ## The accepted deltas -/

/-- The buffer accepts the delta: its end does not overflow, and it is empty or reaches above the
floor. -/
def Accepts (b : TranscriptBuffer) (offset : Nat) (bytes : List UInt8) : Prop :=
  offset + bytes.length ≤ u64Max ∧
    (bytes = [] ∨ b.floorFor (offset + bytes.length) < offset + bytes.length)

instance (b : TranscriptBuffer) (offset : Nat) (bytes : List UInt8) :
    Decidable (b.Accepts offset bytes) :=
  inferInstanceAs (Decidable (_ ∧ _))

/-- **The accepted deltas are the ones the activity fold counts.** -/
theorem DeltaStep.activity_eq {b b' : TranscriptBuffer} {offset : Nat} {bytes : List UInt8}
    (hs : DeltaStep b offset bytes b') :
    b'.activity = if b.Accepts offset bytes then b.activity.fold bytes b.scanner
      else b.activity := by
  cases hs with
  | overflow h => rw [if_neg fun ha => absurd ha.1 (not_le.mpr h)]
  | empty h he => rw [if_pos ⟨h, Or.inl he⟩]; rfl
  | below h hne hf =>
    rw [if_neg]
    · rfl
    · rintro ⟨-, rfl | ha⟩
      · exact absurd hne (lt_irrefl _)
      · exact absurd ha (not_lt.mpr hf)
  | merged h hne hf =>
    rw [if_pos ⟨h, Or.inr hf⟩]
    show (b.placed offset bytes).bounded.activity.fold bytes
      (b.placed offset bytes).bounded.scanner = _
    unfold TranscriptBuffer.bounded
    split <;> rfl

/-- The log after a call: an accepted delta goes on top. -/
def logCall (b : TranscriptBuffer) (log : List (Write UInt8)) : BufferCall → List (Write UInt8)
  | .applyDelta offset bytes => if b.Accepts offset bytes then ⟨offset, bytes⟩ :: log else log
  | .clear => log

theorem logCall_applyDelta (b : TranscriptBuffer) (log : List (Write UInt8)) (offset : Nat)
    (bytes : List UInt8) : b.logCall log (.applyDelta offset bytes) =
      if b.Accepts offset bytes then ⟨offset, bytes⟩ :: log else log := rfl

/-- A run from `b` with the log of the deltas it accepted, newest first. -/
def acceptedLog (b : TranscriptBuffer) (log : List (Write UInt8)) :
    List BufferCall → Option (TranscriptBuffer × List (Write UInt8))
  | [] => some (b, log)
  | c :: cs => (b.call c).bind fun b' => acceptedLog b' (b.logCall log c) cs

/-- The log records a run, it does not change it. -/
theorem acceptedLog_fst (cs : List BufferCall) (b : TranscriptBuffer) (log : List (Write UInt8)) :
    (b.acceptedLog log cs).map Prod.fst = b.calls cs := by
  induction cs generalizing b log with
  | nil => rfl
  | cons c cs ih =>
    unfold acceptedLog calls
    rw [List.foldlM_cons]
    cases hc : b.call c with
    | none => rfl
    | some b' => exact ih b' _

/-- Every write of the log is a delta of the run. -/
theorem mem_acceptedLog {cs : List BufferCall} {b b' : TranscriptBuffer} {log log' : List (Write UInt8)}
    (h : b.acceptedLog log cs = some (b', log')) {w : Write UInt8} (hw : w ∈ log') :
    w ∈ log ∨ .applyDelta w.offset w.values ∈ cs := by
  induction cs generalizing b log with
  | nil =>
    obtain ⟨-, rfl⟩ := Prod.mk.inj (Option.some.inj h)
    exact .inl hw
  | cons c cs ih =>
    obtain ⟨b₁, -, hrest⟩ := Option.bind_eq_some_iff.mp h
    rcases ih hrest with hmem | hmem
    · cases c with
      | applyDelta offset bytes =>
        rw [logCall_applyDelta] at hmem
        split at hmem
        · rcases List.mem_cons.mp hmem with rfl | hmem
          · exact .inr List.mem_cons_self
          · exact .inl hmem
        · exact .inl hmem
      | clear => exact .inl hmem
    · exact .inr (List.mem_cons_of_mem _ hmem)

/-! ## The refinement -/

/-- From the floor on, the buffer holds the last accepted write. -/
def Holds (b : TranscriptBuffer) (log : List (Write UInt8)) : Prop :=
  ∀ x, b.baseOffset ≤ x → b.cell x = lastWrite log x

theorem new_holds (maxBytes : Nat) (scanner : SignatureScanner) :
    (new maxBytes scanner).Holds [] := by
  intro x _
  exact cell_of_ge (Nat.zero_le x)

/-- Raising the floor keeps the refinement. -/
theorem Holds.raise {b : TranscriptBuffer} {log : List (Write UInt8)} (hh : b.Holds log) {f : Nat}
    (hf : b.baseOffset ≤ f) : (b.raise f).Holds log := by
  intro x hx
  have hx' : f ≤ x := hx
  rw [cell_raise hf, if_pos hx']
  exact hh x (le_trans hf hx')

theorem Holds.congr {b c : TranscriptBuffer} {log : List (Write UInt8)} (hh : b.Holds log)
    (h1 : c.baseOffset = b.baseOffset) (h2 : c.data = b.data) (h3 : c.holes = b.holes) :
    c.Holds log := by
  intro x hx
  rw [cell_congr h1 h2 h3]
  exact hh x (h1 ▸ hx)

theorem Holds.foldActivity {b : TranscriptBuffer} {log : List (Write UInt8)} (hh : b.Holds log)
    (bytes : List UInt8) : (b.foldActivity bytes).Holds log :=
  hh.congr rfl rfl rfl

theorem Holds.bounded {b : TranscriptBuffer} {log : List (Write UInt8)} (hb : b.Shape)
    (hh : b.Holds log) : b.bounded.Holds log := by
  unfold TranscriptBuffer.bounded
  split
  · exact hh.raise hb.lastHoleEnd_mem.1
  · exact hh

/-- A merged delta goes on top of the log. -/
theorem Holds.placed {b : TranscriptBuffer} {log : List (Write UInt8)} (hh : b.Holds log)
    {offset : Nat} {bytes : List UInt8} (hne : 0 < bytes.length)
    (hf : b.floorFor (offset + bytes.length) < offset + bytes.length) :
    (b.placed offset bytes).Holds (⟨offset, bytes⟩ :: log) := by
  intro x hx
  have hx' : b.floorFor (offset + bytes.length) ≤ x := hx
  rw [cell_placed hne hf hx']
  by_cases hin : offset ≤ x ∧ x < offset + bytes.length
  · rw [if_pos hin, lastWrite_cons_of_covers (w := ⟨offset, bytes⟩) hin]
    exact (if_pos hin.1).symm
  · rw [if_neg hin, lastWrite_cons_of_not_covers (w := ⟨offset, bytes⟩) hin]
    exact hh x (le_trans (le_max_left _ _) hx')

/-- **A step keeps the refinement.** -/
theorem Holds.step {b b' : TranscriptBuffer} {log : List (Write UInt8)} (hb : b.Shape)
    (hh : b.Holds log) {offset : Nat} {bytes : List UInt8} (hs : DeltaStep b offset bytes b') :
    b'.Holds (b.logCall log (.applyDelta offset bytes)) := by
  rw [logCall_applyDelta]
  cases hs with
  | overflow h =>
    rw [if_neg fun ha => absurd ha.1 (not_le.mpr h)]
    exact hh
  | empty h he =>
    rw [if_pos ⟨h, Or.inl he⟩]
    intro x hx
    rw [lastWrite_cons, Write.at?_of_empty he, Option.none_or]
    exact hh.congr (c := (b.reach _).foldActivity bytes) rfl rfl rfl x hx
  | below h hne hf =>
    have hna : ¬ b.Accepts offset bytes := by
      rintro ⟨-, rfl | ha⟩
      · exact absurd hne (lt_irrefl _)
      · exact absurd ha (not_lt.mpr hf)
    rw [if_neg hna]
    have hreach : (b.reach (offset + bytes.length)).Holds log := hh.congr rfl rfl rfl
    exact (hreach.raise (le_max_left _ _)).congr rfl rfl rfl
  | merged h hne hf =>
    rw [if_pos ⟨h, Or.inr hf⟩]
    exact ((hh.placed hne hf).bounded (hb.placed h hne hf)).foldActivity bytes

/-- After `clear` the buffer holds nothing, and nothing was ever written from its floor on. -/
theorem Holds.clear {b : TranscriptBuffer} {log : List (Write UInt8)} (hb : b.Shape)
    (hh : b.Holds log) : b.clear.1.Holds log := by
  intro x hx
  have hx' : b.highWater ≤ x := hx
  have hend := hb.end_le
  rw [← hh x (by omega), cell_of_ge (b := b) (by omega)]
  exact cell_of_ge (b := b.clear.1) hx'

theorem Holds.call {b : TranscriptBuffer} {log : List (Write UInt8)} (hb : b.WF)
    (hh : b.Holds log) (c : BufferCall) :
    ∃ b', b.call c = some b' ∧ b'.WF ∧ b'.Holds (b.logCall log c) := by
  cases c with
  | applyDelta offset bytes =>
    obtain ⟨b', hb', hs⟩ := hb.applyDelta_step offset bytes
    exact ⟨b', hb', hs.wf hb, hh.step hb.toShape hs⟩
  | clear => exact ⟨b.clear.1, rfl, hb.clear, hh.clear hb.toShape⟩

theorem Holds.calls {b : TranscriptBuffer} {log : List (Write UInt8)} (hb : b.WF)
    (hh : b.Holds log) (cs : List BufferCall) :
    ∃ b' log', b.acceptedLog log cs = some (b', log') ∧ b'.WF ∧ b'.Holds log' := by
  induction cs generalizing b log with
  | nil => exact ⟨b, log, rfl, hb, hh⟩
  | cons c cs ih =>
    obtain ⟨b1, h1, hw1, hh1⟩ := hh.call hb c
    obtain ⟨b2, log2, h2, hw2, hh2⟩ := ih hw1 hh1
    refine ⟨b2, log2, ?_, hw2, hh2⟩
    unfold acceptedLog
    rw [h1]
    exact h2

/-- **Every run refines its log.** -/
theorem run_holds (maxBytes : Nat) (scanner : SignatureScanner) (cs : List BufferCall) :
    ∃ b log, (new maxBytes scanner).acceptedLog [] cs = some (b, log) ∧ b.WF ∧ b.Holds log :=
  (new_holds maxBytes scanner).calls (new_wf maxBytes scanner) cs

/-! ## The readers -/

/-- No hole reaches past the last one. -/
theorem Shape.not_covers_after {b : TranscriptBuffer} (hb : b.Shape) {x : Nat}
    (hx : b.lastHoleEnd ≤ x) : ¬ Covers b.holes x := by
  rintro ⟨r, hr, -, hlt⟩
  exact absurd (lt_of_lt_of_le hlt (hb.hole_le_last hr)) (not_lt.mpr hx)

/-- The span after the last hole is not empty while there is a span. -/
theorem Shape.lastHoleEnd_lt {b : TranscriptBuffer} (hb : b.Shape) (hne : b.data ≠ []) :
    b.lastHoleEnd < b.baseOffset + b.data.length := by
  have hpos : 0 < b.data.length := List.length_pos_of_ne_nil hne
  unfold lastHoleEnd
  split
  · rename_i h hl
    exact (hb.hole (List.mem_of_getLast? hl)).2.2
  · omega

/-- A merged delta leaves a span. -/
theorem Shape.merged_pos {b : TranscriptBuffer} (hb : b.Shape) {offset : Nat} {bytes : List UInt8}
    (hend : offset + bytes.length ≤ u64Max) (hne : 0 < bytes.length)
    (hf : b.floorFor (offset + bytes.length) < offset + bytes.length) :
    0 < (b.placed offset bytes).bounded.data.length := by
  have hp := hb.placed hend hne hf
  obtain ⟨hstop, hpos, -⟩ := placed_fits hne hf
  have hdata : (b.placed offset bytes).data ≠ [] := by
    refine List.ne_nil_of_length_pos ?_
    have hl := write_data_length
      (b := (b.roomFor (offset + bytes.length)).elide
        (b.floorFor (offset + bytes.length) - offset))
      (bytes.drop (b.floorFor (offset + bytes.length) - offset))
      (le_max_left (b.floorFor (offset + bytes.length)) offset)
    refine lt_of_lt_of_eq (lt_max_of_lt_right ?_) hl.symm
    show 0 < _ - b.floorFor (offset + bytes.length)
    omega
  unfold TranscriptBuffer.bounded
  split
  · have := hp.lastHoleEnd_lt hdata
    have := hp.lastHoleEnd_mem
    show 0 < ((b.placed offset bytes).data.drop _).length
    rw [List.length_drop]
    omega
  · exact List.length_pos_of_ne_nil hdata

/-- A delta never empties the span. -/
theorem DeltaStep.data_pos {b b' : TranscriptBuffer} {offset : Nat} {bytes : List UInt8}
    (hs : DeltaStep b offset bytes b') (hb : b.Shape) (h : 0 < b.data.length) :
    0 < b'.data.length := by
  have hlen := hb.len_le
  cases hs with
  | overflow => exact h
  | empty => exact h
  | below hend hne hf =>
    -- the cap is not 0, so the floor is the old one
    have hbase : b.floorFor (offset + bytes.length) = b.baseOffset := by
      unfold floorFor at hf ⊢
      omega
    show 0 < (b.data.drop (b.floorFor (offset + bytes.length) - b.baseOffset)).length
    rw [hbase, Nat.sub_self]
    exact h
  | merged hend hne hf =>
    rw [foldActivity_data]
    exact hb.merged_pos hend hne hf

/-- **What `contiguous_tail` returns**: the cells of the end of the run after the last hole. -/
theorem Shape.contiguousTail_cells {b : TranscriptBuffer} (hb : b.Shape) (window : Nat) :
    ∃ tail, b.contiguousTail window = some tail ∧ (tail = none ↔ b.data = [] ∨ window = 0) ∧
      ∀ bytes, tail = some bytes →
        bytes.length = min window (b.baseOffset + b.data.length - b.lastHoleEnd) ∧
        bytes = b.data.drop (b.data.length - bytes.length) ∧
        ∀ i, i < bytes.length →
          b.baseOffset ≤ b.baseOffset + b.data.length - bytes.length + i ∧
          b.cell (b.baseOffset + b.data.length - bytes.length + i) = bytes[i]? := by
  refine ⟨_, hb.contiguousTail_eq window, ?_, ?_⟩
  · split
    · rename_i h
      exact ⟨fun _ => h, fun _ => rfl⟩
    · rename_i h
      exact ⟨fun h' => absurd h' (by simp), fun h' => absurd h' h⟩
  · intro bytes hbytes
    split at hbytes
    · exact absurd hbytes (by simp)
    · have hrange := hb.lastHoleEnd_mem
      obtain rfl := Option.some.inj hbytes
      have hlen : (b.data.drop (b.data.length -
          min window (b.baseOffset + b.data.length - b.lastHoleEnd))).length =
            min window (b.baseOffset + b.data.length - b.lastHoleEnd) := by
        rw [List.length_drop]
        omega
      rw [hlen]
      refine ⟨rfl, rfl, fun i hi => ?_⟩
      have hx : b.lastHoleEnd ≤ b.baseOffset + b.data.length -
          min window (b.baseOffset + b.data.length - b.lastHoleEnd) + i := by omega
      refine ⟨hrange.1.trans hx, ?_⟩
      rw [cell_eq (le_trans hrange.1 hx) (hb.not_covers_after hx), List.getElem?_drop]
      congr 1
      omega

/-- **`contiguous_tail` serves what was last written.** In the state every run reaches, for a
window of at least one byte the tail is `None` exactly when the span is empty, and otherwise the
last `min(window, span_end - last_hole_end)` bytes of the span; the byte it returns for an offset is
the one the newest accepted delta covering that offset wrote there. -/
theorem contiguousTail_last_written (maxBytes : Nat) (scanner : SignatureScanner)
    (cs : List BufferCall) (window : Nat) (hw : 1 ≤ window) :
    ∃ b log tail, (new maxBytes scanner).acceptedLog [] cs = some (b, log) ∧
      (new maxBytes scanner).calls cs = some b ∧
      b.contiguousTail window = some tail ∧
      (tail = none ↔ b.data = []) ∧
      ∀ bytes, tail = some bytes →
        bytes.length = min window (b.baseOffset + b.data.length - b.lastHoleEnd) ∧
        bytes = b.data.drop (b.data.length - bytes.length) ∧
        ∀ i, i < bytes.length →
          lastWrite log (b.baseOffset + b.data.length - bytes.length + i) = bytes[i]? := by
  obtain ⟨b, log, hrun, hb, hh⟩ := run_holds maxBytes scanner cs
  have hfst := acceptedLog_fst cs (new maxBytes scanner) []
  rw [hrun] at hfst
  obtain ⟨tail, htail, hnone, hcells⟩ := hb.contiguousTail_cells window
  refine ⟨b, log, tail, hrun, hfst.symm, htail, ?_, fun bytes hbytes => ?_⟩
  · rw [hnone]
    exact or_iff_left (by omega)
  · obtain ⟨hlen, hdrop, hcell⟩ := hcells bytes hbytes
    refine ⟨hlen, hdrop, fun i hi => ?_⟩
    obtain ⟨hbase, hi'⟩ := hcell i hi
    rw [← hh _ hbase, hi']

/-- The theorem above at a run with a hole: the tail stops at the hole's end. -/
theorem contiguousTail_last_written_gap :
    ∃ b log tail, (new 16 .empty).acceptedLog [] [.applyDelta 0 [97], .applyDelta 5 [98, 99]] =
        some (b, log) ∧
      (new 16 .empty).calls [.applyDelta 0 [97], .applyDelta 5 [98, 99]] = some b ∧
      b.contiguousTail 4 = some tail ∧ (tail = none ↔ b.data = []) ∧
      ∀ bytes, tail = some bytes →
        bytes.length = min 4 (b.baseOffset + b.data.length - b.lastHoleEnd) ∧
        bytes = b.data.drop (b.data.length - bytes.length) ∧
        ∀ i, i < bytes.length →
          lastWrite log (b.baseOffset + b.data.length - bytes.length + i) = bytes[i]? :=
  contiguousTail_last_written 16 .empty [.applyDelta 0 [97], .applyDelta 5 [98, 99]] 4 (by decide)

/-! ## The placement of a snapshot -/

/-- The bytes from the floor on repeat, before the first hole, as the run after the last one. -/
def RunRepeatsHead (b : TranscriptBuffer) : Prop :=
  ∀ h, b.holes.head? = some h →
    b.baseOffset + b.data.length - b.lastHoleEnd ≤ h.1 - b.baseOffset ∧
      b.data.take (b.baseOffset + b.data.length - b.lastHoleEnd) =
        b.data.drop (b.lastHoleEnd - b.baseOffset)

/-- Every byte of the run after the last hole is the cell as far above the floor. -/
theorem Shape.runRepeatsHead_iff {b : TranscriptBuffer} (hb : b.Shape) :
    (∀ i, i < b.baseOffset + b.data.length - b.lastHoleEnd →
      b.cell (b.baseOffset + i) = b.data[b.lastHoleEnd - b.baseOffset + i]?) ↔
        b.RunRepeatsHead := by
  have hrange := hb.lastHoleEnd_mem
  constructor
  · intro hcell h hh
    have hmem : h ∈ b.holes := List.mem_of_mem_head? hh
    have hin := hb.hole hmem
    have hsome : ∀ i, i < b.baseOffset + b.data.length - b.lastHoleEnd →
        b.data[b.lastHoleEnd - b.baseOffset + i]? ≠ none := fun i hi hn => by
      rw [List.getElem?_eq_none_iff] at hn
      omega
    have huncov : ∀ i, i < b.baseOffset + b.data.length - b.lastHoleEnd →
        ¬ Covers b.holes (b.baseOffset + i) := fun i hi hc =>
      hsome i hi ((hcell i hi).symm.trans (cell_of_hole hc))
    refine ⟨?_, List.ext_getElem? fun i => ?_⟩
    · by_contra hlt
      apply huncov (h.1 - b.baseOffset) (by omega)
      exact ⟨h, hmem, by omega, by omega⟩
    · by_cases hi : i < b.baseOffset + b.data.length - b.lastHoleEnd
      · have := hcell i hi
        rw [cell_eq (Nat.le_add_right _ _) (huncov i hi), Nat.add_sub_cancel_left] at this
        rw [List.getElem?_take_of_lt hi, List.getElem?_drop, this]
      · rw [List.getElem?_eq_none (by rw [List.length_take]; omega),
          List.getElem?_eq_none (by rw [List.length_drop]; omega)]
  · intro hrep i hi
    cases hholes : b.holes with
    | nil =>
      have hlast : b.lastHoleEnd = b.baseOffset := by
        unfold lastHoleEnd
        rw [hholes]
        rfl
      rw [cell_eq (Nat.le_add_right _ _) (by rw [hholes]; exact covers_nil _), hlast,
        Nat.add_sub_cancel_left, Nat.sub_self, Nat.zero_add]
    | cons h hs =>
      obtain ⟨hle, htake⟩ := hrep h (by rw [hholes]; rfl)
      have hsep := hb.sep
      have hin := hb.hole (h := h) (by rw [hholes]; exact List.mem_cons_self)
      rw [hholes] at hsep
      have huncov : ¬ Covers b.holes (b.baseOffset + i) := by
        rw [hholes]
        intro hc
        have := head_le_of_covers hsep hc
        omega
      rw [cell_eq (Nat.le_add_right _ _) huncov, Nat.add_sub_cancel_left, ← List.getElem?_drop,
        ← htake, List.getElem?_take_of_lt hi]

/-- **When a snapshot is placed right.** In the state every run reaches, every byte of the snapshot
is the last-written one at `base_offset` plus its index iff the span has no hole or the run after
the last hole repeats the span's first bytes. -/
theorem snapshot_placed_iff (maxBytes : Nat) (scanner : SignatureScanner)
    (cs : List BufferCall) :
    ∃ b log snap, (new maxBytes scanner).acceptedLog [] cs = some (b, log) ∧
      (new maxBytes scanner).calls cs = some b ∧ b.snapshot = some snap ∧
      ((∀ i, i < snap.bytes.length →
        lastWrite log (snap.baseOffset + i) = snap.bytes[i]?) ↔ b.RunRepeatsHead) := by
  obtain ⟨b, log, hrun, hb, hh⟩ := run_holds maxBytes scanner cs
  have hfst := acceptedLog_fst cs (new maxBytes scanner) []
  rw [hrun] at hfst
  refine ⟨b, log, _, hrun, hfst.symm, hb.snapshot_eq, ?_⟩
  have hrange := hb.lastHoleEnd_mem
  have hlen : (b.data.drop (b.lastHoleEnd - b.baseOffset)).length =
      b.baseOffset + b.data.length - b.lastHoleEnd := by
    rw [List.length_drop]
    omega
  rw [← hb.runRepeatsHead_iff]
  simp only [hlen, List.getElem?_drop]
  refine forall_congr' fun i => forall_congr' fun _ => ?_
  rw [hh _ (Nat.le_add_right _ _)]

/-- A delta at 0, a delta at 5: the snapshot holds the byte written at 5 and says it is at 0. -/
theorem snapshot_misplaced :
    ∃ b log snap, (new 16 .empty).acceptedLog [] [.applyDelta 0 [97], .applyDelta 5 [98]] =
        some (b, log) ∧ b.snapshot = some snap ∧
      ¬ ∀ i, i < snap.bytes.length →
        lastWrite log (snap.baseOffset + i) = snap.bytes[i]? := by
  refine ⟨_, _, _, rfl, rfl, ?_⟩
  intro h
  exact absurd (h 0 (by decide)) (by decide)

end Unimatrix.TranscriptBuffer
