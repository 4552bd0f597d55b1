import Unimatrix.Transcript.Content

/-!
# Below the cap the arrival order of deltas does not matter

The deltas of one session copy stretches of one stream `src` (`CopyOf src`). While the stream fits
the cap and no prefix of the arrivals leaves more than `MAX_HOLE_RANGES` gaps (`FewGaps`), the
buffer is a function of the **set** of deltas that arrived:

* `Settled src ds b`: `b` starts at offset 0, has elided nothing, holds `src` wherever a delta of
  `ds` wrote and zeros elsewhere, and its holes are the maximal unwritten stretches of the span
  (`Gaps`). `Settled.step`: one more delta keeps it, unless Step 6 collapses the buffer, which
  moves the floor off 0 for good.
* `fewGaps_iff`: no prefix leaves too many gaps iff the floor is still 0 at the end of the run.
* `deltas_converge`: two sequences with the same deltas, in any order and with any repetition, end
  in the same bytes, floor, `high_water`, holes and elided count.

The span ends where the last non-empty delta ends (`spanStop`). A zero-length delta moves
`high_water` alone, so the holes need not reach up to it, and a repeated delta that arrives early can
be the one that collapses the buffer (`convergence_fails`).
-/

namespace Unimatrix.TranscriptBuffer

open Machine Intervals WriteLog

/-- The calls that deliver `ds`. -/
def deltas (ds : List (Write UInt8)) : List BufferCall :=
  ds.map fun w => .applyDelta w.offset w.values

/-- The largest end of a delta of `ds`. -/
def highStop (ds : List (Write UInt8)) : Nat := ds.foldl (fun n w => max n w.stop) 0

/-- The largest end of a non-empty delta of `ds`. -/
def spanStop (ds : List (Write UInt8)) : Nat :=
  highStop (ds.filter fun w => !w.values.isEmpty)

/-- `l` lists the maximal stretches below the last written position that no delta wrote. -/
structure Gaps (ds : List (Write UInt8)) (l : List (Nat × Nat)) : Prop where
  sep : Separated l
  iff : ∀ x, Covers l x ↔ x < spanStop ds ∧ ¬ Written ds x

/-- No prefix of `ds` leaves more than `MAX_HOLE_RANGES` gaps. -/
def FewGaps (ds : List (Write UInt8)) : Prop :=
  ∀ p l, p <+: ds → Gaps p l → l.length ≤ maxHoleRanges

/-! ## Ends and gaps depend on the set of deltas -/

theorem highStop_snoc (ds : List (Write UInt8)) (w : Write UInt8) :
    highStop (ds ++ [w]) = max (highStop ds) w.stop := by
  unfold highStop
  rw [List.foldl_append]
  rfl

theorem lt_highStop {ds : List (Write UInt8)} {x : Nat} :
    x < highStop ds ↔ ∃ w ∈ ds, x < w.stop := by
  induction ds using List.reverseRecOn with
  | nil => simp [highStop]
  | append_singleton ds w ih =>
    rw [highStop_snoc, lt_max_iff, ih]
    simp only [List.mem_append, List.mem_singleton, or_and_right, exists_or, exists_eq_left]

theorem highStop_congr {ds es : List (Write UInt8)} (h : ∀ w, w ∈ ds ↔ w ∈ es) :
    highStop ds = highStop es := by
  refine eq_of_forall_lt_iff fun x => ?_
  rw [lt_highStop, lt_highStop]
  simp only [h]

theorem spanStop_congr {ds es : List (Write UInt8)} (h : ∀ w, w ∈ ds ↔ w ∈ es) :
    spanStop ds = spanStop es :=
  highStop_congr fun w => by simp only [List.mem_filter, h]

theorem spanStop_snoc_of_empty (ds : List (Write UInt8)) {w : Write UInt8} (hw : w.values = []) :
    spanStop (ds ++ [w]) = spanStop ds := by
  unfold spanStop
  rw [List.filter_append, List.filter_singleton, hw]
  simp

theorem spanStop_snoc (ds : List (Write UInt8)) {w : Write UInt8} (hw : 0 < w.values.length) :
    spanStop (ds ++ [w]) = max (spanStop ds) w.stop := by
  have hne : w.values.isEmpty = false := by
    rw [List.isEmpty_eq_false_iff]
    exact List.ne_nil_of_length_pos hw
  unfold spanStop
  rw [List.filter_append, List.filter_singleton, hne]
  exact highStop_snoc _ w

theorem written_congr {ds es : List (Write UInt8)} (h : ∀ w, w ∈ ds ↔ w ∈ es) (x : Nat) :
    Written ds x ↔ Written es x := by
  unfold Written
  simp only [h]

theorem written_snoc {ds : List (Write UInt8)} {w : Write UInt8} {x : Nat} :
    Written (ds ++ [w]) x ↔ Written ds x ∨ w.Covers x := by
  unfold Written
  simp only [List.mem_append, List.mem_singleton, or_and_right, exists_or, exists_eq_left]

/-- Every written position lies in the span. -/
theorem lt_spanStop_of_written {ds : List (Write UInt8)} {x : Nat} (h : Written ds x) :
    x < spanStop ds := by
  obtain ⟨w, hw, hc⟩ := h
  exact lt_highStop.mpr ⟨w, List.mem_filter.mpr ⟨hw, by simpa using hc.values_ne_nil⟩, hc.2⟩

theorem Gaps.congr {ds es : List (Write UInt8)} (h : ∀ w, w ∈ ds ↔ w ∈ es)
    {l : List (Nat × Nat)} (hg : Gaps ds l) : Gaps es l :=
  ⟨hg.sep, fun x => by rw [hg.iff, spanStop_congr h, written_congr h]⟩

/-- The gaps are determined by the deltas. -/
theorem Gaps.unique {ds : List (Write UInt8)} {l m : List (Nat × Nat)} (hl : Gaps ds l)
    (hm : Gaps ds m) : l = m :=
  Intervals.ext hl.sep hm.sep fun x => by rw [hl.iff, hm.iff]

theorem FewGaps.of_prefix {ds es : List (Write UInt8)} (h : FewGaps es) (hp : ds <+: es) :
    FewGaps ds :=
  fun p l hpd hg => h p l (hpd.trans hp) hg

/-! ## The state as a function of the deltas -/

/-- `b` is what the deltas `ds`, copies of `src`, leave when nothing was dropped. -/
structure Settled (src : List UInt8) (ds : List (Write UInt8)) (b : TranscriptBuffer) :
    Prop where
  wf : b.WF
  base : b.baseOffset = 0
  elided : b.elidedBytes = 0
  high : b.highWater = highStop ds
  len : b.data.length = spanStop ds
  gaps : Gaps ds b.holes
  bytes : ∀ x, x < spanStop ds → b.data[x]? = if Written ds x then src[x]? else some 0

theorem new_settled (src : List UInt8) (maxBytes : Nat) (scanner : SignatureScanner) :
    Settled src [] (new maxBytes scanner) where
  wf := new_wf maxBytes scanner
  base := rfl
  elided := rfl
  high := rfl
  len := rfl
  gaps := ⟨separated_nil, fun x => by simp [new, spanStop, highStop]⟩
  bytes := fun x hx => absurd hx (Nat.not_lt_zero x)

/-- Settled buffers of the same deltas agree on everything but the activity fold. -/
theorem Settled.agree {src : List UInt8} {ds es : List (Write UInt8)} {b b' : TranscriptBuffer}
    (hb : Settled src ds b) (hb' : Settled src es b') (h : ∀ w, w ∈ ds ↔ w ∈ es) :
    b'.data = b.data ∧ b'.baseOffset = b.baseOffset ∧ b'.highWater = b.highWater ∧
      b'.holes = b.holes ∧ b'.elidedBytes = b.elidedBytes := by
  refine ⟨?_, hb'.base.trans hb.base.symm, ?_, (hb'.gaps.unique (hb.gaps.congr h)),
    hb'.elided.trans hb.elided.symm⟩
  · refine List.ext_getElem? fun x => ?_
    by_cases hx : x < spanStop ds
    · rw [hb.bytes x hx, hb'.bytes x (spanStop_congr h ▸ hx)]
      simp only [written_congr h]
    · have hlen := hb.len
      have hlen' := hb'.len.trans (spanStop_congr h).symm
      rw [List.getElem?_eq_none (by omega), List.getElem?_eq_none (by omega)]
  · rw [hb.high, hb'.high, highStop_congr h]

section Step

variable {src : List UInt8} {ds : List (Write UInt8)} {b : TranscriptBuffer} {w : Write UInt8}

/-- With the floor at 0 and room for all of `src`, a delta is placed where it says. -/
theorem Settled.placed_eq (hb : Settled src ds b) (hcap : src.length ≤ b.maxBytes)
    (hmax : b.maxBytes ≤ u64Max) (hw : CopyOf src w) :
    b.floorFor w.stop = 0 ∧
      b.placed w.offset w.values = (b.reach w.stop).write w.offset w.values := by
  have hstop := hw.1
  have hf : b.floorFor w.stop = 0 := by
    unfold floorFor
    rw [hb.base]
    omega
  have hreach : (b.reach w.stop).Shape := hb.wf.reach (le_trans hstop (le_trans hcap hmax))
  have hroom : b.roomFor w.stop = b.reach w.stop := by
    have hself := hreach.raise_self
    rw [show (b.reach w.stop).baseOffset = 0 from hb.base] at hself
    unfold roomFor
    rw [hf, hself]
  have helide : (b.reach w.stop).elide 0 = b.reach w.stop := by
    unfold elide
    rw [satAdd_zero hreach.elided_le]
  refine ⟨hf, ?_⟩
  unfold placed
  rw [show w.offset + w.values.length = w.stop from rfl, hroom, hf]
  simp only [Nat.zero_sub, Nat.zero_max, List.drop_zero]
  rw [helide]

/-- The holes of a placed delta are the gaps of the deltas so far. -/
theorem Settled.gaps_write (hb : Settled src ds b) (hne : 0 < w.values.length) :
    Gaps (ds ++ [w]) ((b.reach w.stop).write w.offset w.values).holes := by
  have hspan : b.baseOffset + b.data.length = spanStop ds := by rw [hb.base, hb.len, Nat.zero_add]
  refine ⟨((hb.wf.gapped_sep w.offset).subtract (by omega)), fun x => ?_⟩
  show Covers (subtract (b.gapped w.offset) w.offset w.stop) x ↔ _
  have hstop : w.stop = w.offset + w.values.length := rfl
  have hg : Covers (b.gapped w.offset) x ↔
      Covers b.holes x ∨ (spanStop ds ≤ x ∧ x < w.offset) := by
    unfold gapped
    rw [hspan]
    split
    · rw [covers_append, covers_cons]
      simp only [covers_nil, or_false]
    · constructor
      · exact Or.inl
      · rintro (h | h)
        · exact h
        · omega
  rw [covers_subtract, hg, hb.gaps.iff, spanStop_snoc ds hne, written_snoc]
  unfold Write.Covers
  constructor
  · rintro ⟨h | h, hn⟩
    · exact ⟨lt_of_lt_of_le h.1 (le_max_left _ _), not_or.mpr ⟨h.2, hn⟩⟩
    · refine ⟨lt_of_lt_of_le h.2 (le_trans (by omega) (le_max_right _ _)), not_or.mpr ⟨?_, hn⟩⟩
      intro hwr
      have := lt_spanStop_of_written hwr
      omega
  · rintro ⟨hx, hn⟩
    obtain ⟨hn1, hn2⟩ := not_or.mp hn
    refine ⟨?_, hn2⟩
    by_cases hlt : x < spanStop ds
    · exact Or.inl ⟨hlt, hn1⟩
    · right
      omega

/-- Reading the span once it holds a placed delta: zeros where nothing was written. -/
theorem Settled.bytes_write (hb : Settled src ds b) (hw : CopyOf src w)
    (hne : 0 < w.values.length) {x : Nat} (hx : x < spanStop (ds ++ [w])) :
    ((b.reach w.stop).write w.offset w.values).data[x]? =
      if Written (ds ++ [w]) x then src[x]? else some 0 := by
  have hbase : (b.reach w.stop).baseOffset = 0 := hb.base
  have hlen : (b.reach w.stop).data.length = spanStop ds := hb.len
  have hread := write_data_getElem? (b := b.reach w.stop) (o := w.offset) w.values
    (x := x) (by omega) (by omega)
  rw [hbase, Nat.sub_zero] at hread
  rw [spanStop_snoc ds hne] at hx
  refine hread.trans ?_
  by_cases hc : w.Covers x
  · have hat := hw.at?_eq hc
    unfold Write.at? at hat
    rw [if_pos hc.1] at hat
    refine (if_pos hc).trans ?_
    rw [hat, if_pos (written_snoc.mpr (Or.inr hc))]
  · have hwr : Written (ds ++ [w]) x ↔ Written ds x := by
      rw [written_snoc, or_iff_left hc]
    refine (if_neg hc).trans ?_
    simp only [hwr]
    unfold extended
    rw [hbase, hlen, Nat.zero_add, Nat.sub_zero]
    by_cases hold : x < spanStop ds
    · rw [← hb.bytes x hold]
      split
      · exact getElem?_resize_of_lt 0 (by omega) (by omega)
      · rfl
    · have hxs : x < w.offset + w.values.length := (lt_max_iff.mp hx).resolve_left hold
      rw [if_neg fun h => hold (lt_spanStop_of_written h), if_pos (by omega)]
      exact getElem?_resize_of_ge 0 (by omega) hxs

/-- A delta without bytes leaves the span and its gaps as they are. -/
theorem Settled.empty (hb : Settled src ds b) (h : w.stop ≤ u64Max) (he : w.values = []) :
    Settled src (ds ++ [w]) ((b.reach w.stop).foldActivity w.values) := by
  have hspan := spanStop_snoc_of_empty ds he
  have hwr : ∀ x, Written (ds ++ [w]) x ↔ Written ds x := fun x => by
    rw [written_snoc, or_iff_left fun hc => hc.values_ne_nil he]
  have hg : Gaps (ds ++ [w]) b.holes :=
    ⟨hb.gaps.sep, fun x => by rw [hb.gaps.iff, hspan, hwr]⟩
  exact
    { wf := (DeltaStep.empty h he).wf hb.wf
      base := hb.base
      elided := hb.elided
      high := by
        rw [highStop_snoc, ← hb.high]
        rfl
      len := hspan.symm ▸ hb.len
      gaps := hg
      bytes := fun x hx => by
        simp only [hwr]
        exact hb.bytes x (hspan ▸ hx) }

/-- A delta that leaves few enough gaps is placed where it says. -/
theorem Settled.merged (hb : Settled src ds b) (hw : CopyOf src w) (hne : 0 < w.values.length)
    (hsh : ((b.reach w.stop).write w.offset w.values).Shape)
    (hfew : ((b.reach w.stop).write w.offset w.values).holes.length ≤ maxHoleRanges) :
    Settled src (ds ++ [w])
      (((b.reach w.stop).write w.offset w.values).bounded.foldActivity w.values) := by
  have hbd : ((b.reach w.stop).write w.offset w.values).bounded =
      (b.reach w.stop).write w.offset w.values := if_neg (not_lt.mpr hfew)
  have hbase : (b.reach w.stop).baseOffset = 0 := hb.base
  rw [hbd]
  exact
    { wf := ⟨hsh.foldActivity _, hfew⟩
      base := hb.base
      elided := hb.elided
      high := by
        rw [highStop_snoc, ← hb.high]
        rfl
      len := by
        refine (write_data_length w.values (by rw [hbase]; exact Nat.zero_le _)).trans ?_
        rw [spanStop_snoc ds hne, ← hb.len, hbase]
        rfl
      gaps := hb.gaps_write hne
      bytes := fun x hx => hb.bytes_write hw hne hx }

/-- Too many gaps raise the floor to the end of the last one. -/
theorem Shape.bounded_pos (hb : b.Shape) (hover : maxHoleRanges < b.holes.length) :
    0 < b.bounded.baseOffset := by
  have hbd : b.bounded = b.raise b.lastHoleEnd := if_pos hover
  rw [hbd]
  obtain ⟨q, hq⟩ := List.exists_mem_of_length_pos (lt_of_le_of_lt (Nat.zero_le _) hover)
  have := hb.hole_le_last hq
  have := hb.hole hq
  show 0 < b.lastHoleEnd
  omega

/-- **One more delta** keeps the buffer settled, unless Step 6 collapses it. -/
theorem Settled.step {b' : TranscriptBuffer} (hb : Settled src ds b)
    (hcap : src.length ≤ b.maxBytes) (hmax : b.maxBytes ≤ u64Max) (hw : CopyOf src w)
    (hs : DeltaStep b w.offset w.values b') :
    ∃ l, Gaps (ds ++ [w]) l ∧
      ((l.length ≤ maxHoleRanges ∧ Settled src (ds ++ [w]) b') ∨
        (maxHoleRanges < l.length ∧ 0 < b'.baseOffset)) := by
  obtain ⟨hf, hplaced⟩ := hb.placed_eq hcap hmax hw
  have hwstop := hw.1
  cases hs with
  | overflow h =>
    have : w.stop ≤ u64Max := le_trans hwstop (le_trans hcap hmax)
    exact absurd h (not_lt.mpr this)
  | below h hne hle =>
    have : w.stop ≤ b.floorFor w.stop := hle
    unfold Write.stop at this hf
    omega
  | empty h he =>
    have hsettled := hb.empty h he
    exact ⟨b.holes, hsettled.gaps, Or.inl ⟨hb.wf.few, hsettled⟩⟩
  | merged h hne hlt =>
    have hsh := hb.wf.placed h hne hlt
    refine ⟨_, hb.gaps_write hne, ?_⟩
    rw [hplaced] at hsh ⊢
    by_cases hfew : ((b.reach w.stop).write w.offset w.values).holes.length ≤ maxHoleRanges
    · exact Or.inl ⟨hfew, hb.merged hw hne hsh hfew⟩
    · have hover := not_le.mp hfew
      exact Or.inr ⟨hover, hsh.bounded_pos hover⟩

end Step

/-! ## Runs -/

theorem calls_deltas_snoc (b : TranscriptBuffer) (ds : List (Write UInt8)) (w : Write UInt8) :
    b.calls (deltas (ds ++ [w])) =
      (b.calls (deltas ds)).bind fun b' => b'.applyDelta w.offset w.values := by
  unfold deltas
  rw [List.map_append, calls_append]
  cases b.calls (ds.map fun w => .applyDelta w.offset w.values) with
  | none => rfl
  | some b' =>
    show b'.applyDelta w.offset w.values >>= pure = b'.applyDelta w.offset w.values
    exact bind_pure _

theorem fewGaps_nil : FewGaps [] := by
  intro p l hp hg
  rw [List.prefix_nil.mp hp] at hg
  rw [hg.unique (new_settled [] 0 .empty).gaps]
  exact Nat.zero_le _

theorem fewGaps_snoc {ds : List (Write UInt8)} {w : Write UInt8} {l : List (Nat × Nat)}
    (h : FewGaps ds) (hg : Gaps (ds ++ [w]) l) (hl : l.length ≤ maxHoleRanges) :
    FewGaps (ds ++ [w]) := by
  intro p m hp hm
  rcases List.prefix_concat_iff.mp hp with rfl | hp
  · rw [hm.unique hg]
    exact hl
  · exact h p m hp hm

section Run

variable {src : List UInt8} (maxBytes : Nat) (scanner : SignatureScanner)
  {ds : List (Write UInt8)}

/-- **A run of copies** ends settled while the gaps are few, and above floor 0 once they are not. -/
theorem run_settled (hcap : src.length ≤ maxBytes) (hmax : maxBytes ≤ u64Max)
    (hds : ∀ w ∈ ds, CopyOf src w) :
    ∃ b, (new maxBytes scanner).calls (deltas ds) = some b ∧ b.WF ∧ b.maxBytes = maxBytes ∧
      ((FewGaps ds ∧ Settled src ds b) ∨ (¬ FewGaps ds ∧ 0 < b.baseOffset)) := by
  induction ds using List.reverseRecOn with
  | nil =>
    exact ⟨_, rfl, new_wf maxBytes scanner, rfl, Or.inl ⟨fewGaps_nil, new_settled src _ _⟩⟩
  | append_singleton ds w ih =>
    obtain ⟨b, hrun, hb, hmb, hcase⟩ := ih fun v hv => hds v (List.mem_append_left _ hv)
    have hw : CopyOf src w := hds w (List.mem_append_right _ List.mem_cons_self)
    obtain ⟨b', hb', hs⟩ := hb.applyDelta_step w.offset w.values
    refine ⟨b', ?_, hs.wf hb, hs.maxBytes_eq.trans hmb, ?_⟩
    · rw [calls_deltas_snoc, hrun]
      exact hb'
    · rcases hcase with ⟨hfew, hset⟩ | ⟨hmany, hpos⟩
      · obtain ⟨l, hg, ⟨hl, hset'⟩ | ⟨hl, hpos⟩⟩ :=
          hset.step (hmb ▸ hcap) (hmb ▸ hmax) hw hs
        · exact Or.inl ⟨fewGaps_snoc hfew hg hl, hset'⟩
        · exact Or.inr ⟨fun h => absurd (h _ l List.prefix_rfl hg) (not_le.mpr hl), hpos⟩
      · refine Or.inr ⟨fun h => hmany (h.of_prefix (List.prefix_append _ _)), ?_⟩
        exact lt_of_lt_of_le hpos (hs.base_le hb.toShape)

/-- **The gaps stayed few iff the floor stayed at 0.** -/
theorem fewGaps_iff (hcap : src.length ≤ maxBytes) (hmax : maxBytes ≤ u64Max)
    (hds : ∀ w ∈ ds, CopyOf src w) :
    FewGaps ds ↔ ((new maxBytes scanner).calls (deltas ds)).map baseOffset = some 0 := by
  obtain ⟨b, hrun, -, -, ⟨hfew, hset⟩ | ⟨hmany, hpos⟩⟩ :=
    run_settled maxBytes scanner hcap hmax hds
  · rw [hrun]
    exact ⟨fun _ => congrArg some hset.base, fun _ => hfew⟩
  · rw [hrun]
    refine ⟨fun h => absurd h hmany, fun h => ?_⟩
    have hbase : b.baseOffset = 0 := Option.some.inj h
    omega

theorem FewGaps.run_settled (h : FewGaps ds) (hcap : src.length ≤ maxBytes)
    (hmax : maxBytes ≤ u64Max) (hds : ∀ w ∈ ds, CopyOf src w) :
    ∃ b, (new maxBytes scanner).calls (deltas ds) = some b ∧ Settled src ds b := by
  obtain ⟨b, hrun, -, -, ⟨-, hset⟩ | ⟨hmany, -⟩⟩ :=
    TranscriptBuffer.run_settled maxBytes scanner hcap hmax hds
  · exact ⟨b, hrun, hset⟩
  · exact absurd h hmany

end Run

/-! ## Repeating a delta that has arrived -/

theorem mem_repeat {pre mid : List (Write UInt8)} {w : Write UInt8} (q : List (Write UInt8))
    (v : Write UInt8) :
    v ∈ pre ++ w :: (mid ++ q) ↔ v ∈ pre ++ w :: (mid ++ w :: q) := by
  simp only [List.mem_append, List.mem_cons]
  tauto

/-- A delta repeated after it arrived opens no gap. -/
theorem FewGaps.repeat_later {pre mid post : List (Write UInt8)} {w : Write UInt8}
    (h : FewGaps (pre ++ w :: (mid ++ post))) :
    FewGaps (pre ++ w :: (mid ++ w :: post)) := by
  intro p l hp hg
  have hassoc : ∀ q, pre ++ w :: (mid ++ q) = (pre ++ w :: mid) ++ q := fun q => by
    rw [List.append_assoc, List.cons_append]
  rw [hassoc] at hp h
  by_cases hlen : p.length ≤ (pre ++ w :: mid).length
  · refine h p l ?_ hg
    exact (List.prefix_of_prefix_length_le hp (List.prefix_append _ _) hlen).trans
      (List.prefix_append _ _)
  · obtain ⟨r, rfl⟩ := List.prefix_of_prefix_length_le (List.prefix_append _ _) hp
      (le_of_lt (not_le.mp hlen))
    have hr := (List.prefix_append_right_inj _).mp hp
    cases r with
    | nil => exact absurd (by rw [List.append_nil]) hlen
    | cons v q =>
      obtain ⟨rfl, hq⟩ := List.cons_prefix_cons.mp hr
      refine h ((pre ++ v :: mid) ++ q) l ((List.prefix_append_right_inj _).mpr hq) ?_
      refine hg.congr fun u => ?_
      rw [← hassoc, ← hassoc]
      exact (mem_repeat q u).symm

/-! ## Convergence -/

/-- **The same deltas end in the same buffer.** For a stream that fits the cap, two sequences that
hold the same deltas, in any order and each any number of times, such that in neither a prefix
leaves more than `MAX_HOLE_RANGES` gaps, end in the same bytes, floor 0, `high_water` (the largest
end), holes (the maximal stretches below the end of the last non-empty delta that no delta covers)
and elided count 0. Repeating a delta after its first arrival keeps the gaps few, and so changes
none of these. -/
theorem deltas_converge (src : List UInt8) (maxBytes : Nat) (scanner : SignatureScanner)
    (hcap : src.length ≤ maxBytes) (hmax : maxBytes ≤ u64Max) (ds es : List (Write UInt8))
    (hds : ∀ w ∈ ds, CopyOf src w) (hsame : ∀ w, w ∈ ds ↔ w ∈ es) (hfd : FewGaps ds)
    (hfe : FewGaps es) :
    ∃ b, (new maxBytes scanner).calls (deltas ds) = some b ∧ b.baseOffset = 0 ∧
      b.elidedBytes = 0 ∧ b.highWater = highStop ds ∧ Gaps ds b.holes ∧
      (∃ b', (new maxBytes scanner).calls (deltas es) = some b' ∧ b'.data = b.data ∧
        b'.baseOffset = b.baseOffset ∧ b'.highWater = b.highWater ∧ b'.holes = b.holes ∧
        b'.elidedBytes = b.elidedBytes) ∧
      ∀ pre w mid post, ds = pre ++ w :: (mid ++ post) →
        ∃ b', (new maxBytes scanner).calls (deltas (pre ++ w :: (mid ++ w :: post))) = some b' ∧
          b'.data = b.data ∧ b'.baseOffset = b.baseOffset ∧ b'.highWater = b.highWater ∧
          b'.holes = b.holes ∧ b'.elidedBytes = b.elidedBytes := by
  obtain ⟨b, hrun, hset⟩ := hfd.run_settled maxBytes scanner hcap hmax hds
  refine ⟨b, hrun, hset.base, hset.elided, hset.high, hset.gaps, ?_, ?_⟩
  · obtain ⟨b', hrun', hset'⟩ := hfe.run_settled maxBytes scanner hcap hmax fun w hw =>
      hds w ((hsame w).mpr hw)
    exact ⟨b', hrun', hset.agree hset' hsame⟩
  · rintro pre w mid post rfl
    obtain ⟨b', hrun', hset'⟩ := hfd.repeat_later.run_settled maxBytes scanner hcap hmax fun v hv =>
      hds v ((mem_repeat post v).mpr hv)
    exact ⟨b', hrun', hset.agree hset' (mem_repeat post)⟩

/-- The theorem above at a stream of six bytes with a hole, a duplicate and an overlap. -/
theorem deltas_converge_six :
    ∃ b, (new 8 .empty).calls (deltas [⟨0, [1]⟩, ⟨4, [5, 6]⟩, ⟨3, [4, 5]⟩]) = some b ∧
      b.baseOffset = 0 ∧ b.elidedBytes = 0 ∧
      b.highWater = highStop [⟨0, [1]⟩, ⟨4, [5, 6]⟩, ⟨3, [4, 5]⟩] ∧
      Gaps [⟨0, [1]⟩, ⟨4, [5, 6]⟩, ⟨3, [4, 5]⟩] b.holes ∧
      (∃ b', (new 8 .empty).calls
          (deltas [⟨3, [4, 5]⟩, ⟨4, [5, 6]⟩, ⟨3, [4, 5]⟩, ⟨0, [1]⟩]) = some b' ∧
        b'.data = b.data ∧ b'.baseOffset = b.baseOffset ∧ b'.highWater = b.highWater ∧
        b'.holes = b.holes ∧ b'.elidedBytes = b.elidedBytes) ∧
      ∀ pre w mid post, [⟨0, [1]⟩, ⟨4, [5, 6]⟩, ⟨3, [4, 5]⟩] = pre ++ w :: (mid ++ post) →
        ∃ b', (new 8 .empty).calls (deltas (pre ++ w :: (mid ++ w :: post))) = some b' ∧
          b'.data = b.data ∧ b'.baseOffset = b.baseOffset ∧ b'.highWater = b.highWater ∧
          b'.holes = b.holes ∧ b'.elidedBytes = b.elidedBytes := by
  have hcopy : ∀ w ∈ [⟨0, [1]⟩, ⟨4, [5, 6]⟩, (⟨3, [4, 5]⟩ : Write UInt8)],
      CopyOf [1, 2, 3, 4, 5, 6] w := by
    decide
  have hcopy' : ∀ w ∈ [⟨3, [4, 5]⟩, ⟨4, [5, 6]⟩, ⟨3, [4, 5]⟩, (⟨0, [1]⟩ : Write UInt8)],
      CopyOf [1, 2, 3, 4, 5, 6] w := by
    decide
  refine deltas_converge [1, 2, 3, 4, 5, 6] 8 .empty (by decide) (by decide) _ _ hcopy ?_ ?_ ?_
  · intro w
    simp only [List.mem_cons, List.not_mem_nil, or_false]
    tauto
  · exact (fewGaps_iff 8 .empty (by decide) (by decide) hcopy).mpr rfl
  · exact (fewGaps_iff 8 .empty (by decide) (by decide) hcopy').mpr rfl

/-- The bytes at the odd offsets below 128, then the byte at 0: as many gaps as are allowed. -/
def oddBytes : List (Write UInt8) := (List.range 64).map fun i => ⟨2 * i + 1, [0]⟩

/-- **The order-independence fails without its two conditions.** A zero-length delta alone moves
`high_water` to its offset and leaves no hole below it. And a sequence that never has more than 64
gaps can get 65 by repeating its last delta early: the floor then moves, and stays moved. -/
theorem convergence_fails :
    (∃ b, (new 8 .empty).calls (deltas [⟨5, []⟩]) = some b ∧ b.highWater = 5 ∧
      b.holes = [] ∧ ¬ Written [⟨5, ([] : List UInt8)⟩] 0) ∧
    FewGaps (oddBytes ++ [⟨0, [0]⟩, ⟨129, [0]⟩]) ∧
    ((new 130 .empty).calls (deltas (oddBytes ++ [⟨0, [0]⟩, ⟨129, [0]⟩]))).map baseOffset =
      some 0 ∧
    ((new 130 .empty).calls
        (deltas (oddBytes ++ [⟨129, [0]⟩, ⟨0, [0]⟩, ⟨129, [0]⟩]))).map baseOffset =
      some 129 := by
  have hcopy : ∀ w ∈ oddBytes ++ [⟨0, [0]⟩, (⟨129, [0]⟩ : Write UInt8)],
      CopyOf (List.replicate 130 0) w := by
    decide +kernel
  have hkept : ((new 130 .empty).calls (deltas (oddBytes ++ [⟨0, [0]⟩, ⟨129, [0]⟩]))).map baseOffset =
      some 0 := by
    decide +kernel
  refine ⟨⟨_, rfl, rfl, rfl, by decide⟩, ?_, hkept, by decide +kernel⟩
  exact (fewGaps_iff 130 .empty (le_of_eq List.length_replicate) (by decide) hcopy).mpr hkept

end Unimatrix.TranscriptBuffer
