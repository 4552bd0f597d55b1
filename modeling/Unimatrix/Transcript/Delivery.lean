import Unimatrix.Hook.Delta
import Unimatrix.Transcript.Convergence

/-!
# From the sender to the buffer

The frames of `buildDeltaFrame` (`Delta.Built`: any span that begins at a boundary, any observed length) are delivered
to a fresh buffer in any order and any number of times; the server checks the session id (`sanitizeSessionId`) and
reads the payload (`payload`).

An elided frame is placed so that it ends where the file does, and so its head and its marker lie over bytes that they
are not; but only below its last `TAIL_BYTES - 3` bytes (`Built.at?_eq`), as the budget of its tail is never halved:
no body reaches the guard (`assemble_of_le`). The buffer's span ends at the largest end that has arrived
(`calls_deltas_end`). Hence **`tail_faithful`**: within that window the tail is the file.
-/

namespace Unimatrix.Delta

open Machine Utf8 WriteLog

/-! ## The size of a body -/

theorem length_decimal_le {n : Int} (h : n.natAbs ≤ maxSafeInteger) : (encode (decimal n)).length ≤ 68 := by
  have hdigits : (Nat.toDigits 10 n.natAbs).length ≤ 16 :=
    (Nat.length_toDigits_le_iff (by decide) (by decide)).mpr (by unfold maxSafeInteger at h; omega)
  have hle := length_encode_le (decimal n)
  have hlen : (decimal n).length ≤ 17 := by
    unfold decimal
    split
    · rw [List.length_cons]
      omega
    · omega
  omega

theorem digitChar_lt (n : Nat) : (Nat.digitChar n).toNat < 0x80 := by
  fun_cases Nat.digitChar n <;> decide

/-- A byte becomes at most six. -/
theorem length_escapeChar_le (c : Char) :
    (encode (escapeChar c)).length ≤ 6 * (String.utf8EncodeChar c).length := by
  have hpos : 0 < (String.utf8EncodeChar c).length := by
    obtain ⟨b, t, h, -⟩ := encodeChar_sequence c
    rw [h]
    exact Nat.succ_pos _
  have htwo : ∀ d : Char, d.toNat < 0x80 → (encode ['\\', d]).length = 2 := fun d hd =>
    length_encode_ascii (by simpa using hd)
  unfold escapeChar
  split
  · rw [htwo _ (by decide)]
    omega
  split
  · rw [htwo _ (by decide)]
    omega
  split
  · rw [htwo _ (by decide)]
    omega
  split
  · rw [htwo _ (by decide)]
    omega
  split
  · rw [htwo _ (by decide)]
    omega
  split
  · rw [htwo _ (by decide)]
    omega
  split
  · rw [htwo _ (by decide)]
    omega
  split
  · have hcontrol : (encode ['\\', 'u', '0', '0', Nat.digitChar (c.toNat / 16),
        Nat.digitChar (c.toNat % 16)]).length = 6 := length_encode_ascii (by simp [digitChar_lt])
    rw [hcontrol]
    omega
  · rw [encode_cons, encode_nil, List.append_nil]
    omega

theorem length_jsonString_le (s : List Char) : (encode (jsonString s)).length ≤ 6 * (encode s).length + 2 := by
  have hflat : (encode (s.flatMap escapeChar)).length ≤ 6 * (encode s).length := by
    induction s with
    | nil => exact Nat.le_refl _
    | cons c s ih =>
      have := length_escapeChar_le c
      rw [List.flatMap_cons, encode_append, encode_cons, List.length_append, List.length_append]
      omega
  have hquote : (String.utf8EncodeChar '"').length = 1 := by decide
  unfold jsonString
  rw [encode_cons, encode_append, encode_cons, encode_nil, List.length_append, List.length_append,
    List.append_nil]
  omega

/-- The text of an object takes its keys and its values, and at most three bytes for each, and two. -/
theorem length_jsonObject_le (fields : List (String × List Char)) :
    (encode (jsonObject fields)).length ≤ 2 + (fields.map fun f =>
      (encode (jsonString f.1.toList)).length + (encode f.2).length + 2).sum := by
  have hbody : ∀ l : List (List Char), (encode ([','].intercalate l)).length ≤
      (l.map fun x => (encode x).length + 1).sum := by
    intro l
    induction l with
    | nil => exact Nat.zero_le _
    | cons x l ih =>
      cases l with
      | nil => simp [List.intercalate]
      | cons y l =>
        have hsplit : [','].intercalate (x :: y :: l) = x ++ ',' :: [','].intercalate (y :: l) := by
          simp [List.intercalate]
        rw [hsplit, encode_append, encode_cons, List.length_append, List.length_append,
          length_encodeChar_ascii (c := ',') (by decide), List.map_cons, List.sum_cons]
        omega
  unfold jsonObject
  rw [encode_cons, encode_append, encode_cons, encode_nil, List.length_append, List.length_append,
    List.append_nil]
  have hfields := hbody (fields.map fun f => jsonString f.1.toList ++ ':' :: f.2)
  rw [List.map_map] at hfields
  have hopen := length_encodeChar_ascii (c := '\x7b') (by decide)
  have hclose := length_encodeChar_ascii (c := '\x7d') (by decide)
  have hsum : (fields.map ((fun x => (encode x).length + 1) ∘ fun f => jsonString f.1.toList ++ ':' :: f.2)) =
      fields.map fun f => (encode (jsonString f.1.toList)).length + (encode f.2).length + 2 := by
    refine List.map_congr_left fun f _ => ?_
    rw [Function.comp_apply, encode_append, encode_cons, List.length_append, List.length_append,
      length_encodeChar_ascii (c := ':') (by decide)]
    omega
  rw [hsum] at hfields
  omega

/-- The body of a frame: six bytes for each of its text, and the names. -/
theorem length_frameText_le {offset : Int} (bytes : List Char) {sessionId : List Char}
    {provider : Option (List Char)} {now : Nat} (hoffset : offset.natAbs ≤ maxSafeInteger) (hnow : now ≤ maxSafeInteger)
    (hsession : (encode sessionId).length ≤ 128) (hprovider : ∀ p ∈ provider, (encode p).length ≤ 128) :
    (encode (frameText offset bytes sessionId provider now)).length ≤ 6 * (encode bytes).length + 2000 := by
  have hb := length_jsonString_le bytes
  have hs := length_jsonString_le sessionId
  have ho := length_decimal_le hoffset
  have hn := length_decimal_le (n := (now : Int)) (by omega)
  have hkeys : ∀ k ∈ ["type", "RecordEvent", "event_type", "transcript_delta", "session_id", "timestamp",
      "payload", "offset", "bytes", "provider"], (encode (jsonString k.toList)).length ≤ 18 := by
    decide +kernel
  have htype := hkeys "type" (by decide)
  have hrecord := hkeys "RecordEvent" (by decide)
  have hevent := hkeys "event_type" (by decide)
  have hdelta := hkeys "transcript_delta" (by decide)
  have hsid := hkeys "session_id" (by decide)
  have htime := hkeys "timestamp" (by decide)
  have hpayload := hkeys "payload" (by decide)
  have hoff := hkeys "offset" (by decide)
  have hbytes := hkeys "bytes" (by decide)
  have hprov := hkeys "provider" (by decide)
  have hinner := length_jsonObject_le [("offset", decimal offset), ("bytes", jsonString bytes)]
  simp only [List.map_cons, List.map_nil, List.sum_cons, List.sum_nil] at hinner
  have houter := length_jsonObject_le ([("type", jsonString "RecordEvent".toList),
      ("event_type", jsonString "transcript_delta".toList), ("session_id", jsonString sessionId),
      ("timestamp", decimal now),
      ("payload", jsonObject [("offset", decimal offset), ("bytes", jsonString bytes)])] ++
    provider.toList.map fun p => ("provider", jsonString p))
  unfold frameText
  refine houter.trans ?_
  rw [List.map_append, List.sum_append]
  have hlast : ((provider.toList.map fun p => ("provider", jsonString p)).map fun f =>
      (encode (jsonString f.1.toList)).length + (encode f.2).length + 2).sum ≤ 800 := by
    cases provider with
    | none => exact Nat.zero_le _
    | some p =>
      have hp := length_jsonString_le p
      have hp' := hprovider p rfl
      simp only [Option.toList_some, List.map_cons, List.map_nil, List.sum_cons, List.sum_nil]
      omega
  simp only [List.map_cons, List.map_nil, List.sum_cons, List.sum_nil]
  omega

/-- **No body reaches the guard** while the text stays within the budgets. -/
theorem assemble_of_le {offset : Int} {bytes sessionId : List Char} {provider : Option (List Char)}
    {now : Nat} (hoffset : offset.natAbs ≤ maxSafeInteger) (hnow : now ≤ maxSafeInteger)
    (hsession : (encode sessionId).length ≤ 128) (hprovider : ∀ p ∈ provider, (encode p).length ≤ 128)
    (hbytes : (encode bytes).length ≤ headBytes + tailBytes + 200) :
    ∃ frame, assemble offset bytes sessionId provider now = some frame := by
  have hle := length_frameText_le bytes hoffset hnow hsession hprovider
  have hguard : 6 * (headBytes + tailBytes + 200) + 2000 ≤ bodyGuard := by decide
  unfold assemble
  simp only
  rw [if_neg (by omega)]
  exact ⟨_, rfl⟩

/-! ## What is delivered -/

/-- `sanitize_session_id`: the server takes no other session id. -/
def sanitizeSessionId (sessionId : List Char) : Bool :=
  !sessionId.isEmpty && decide ((encode sessionId).length ≤ 128) &&
    sessionId.all fun ch => ch.isAlphanum || ch == '-' || ch == '_'

/-- The providers a hook reports. -/
def providers : List String := ["claude-code", "gemini-cli", "codex-cli", "opencode", "unknown"]

/-- A frame that `buildDeltaFrame` builds of the file. -/
def Built (file : Transcript) (sessionId : List Char) (frame : Frame) : Prop :=
  ∃ last fileLen present provider now, Boundary file.text last ∧ fileLen ≤ present ∧
    fileLen ≤ (encode file.text).length ∧ (∀ p ∈ provider, p ∈ providers.map String.toList) ∧
    now ≤ maxSafeInteger ∧
    buildDeltaFrame (some ((encode file.text).take present)) last fileLen sessionId provider now = some frame

/-- `TranscriptDeltaPayload`: what the server reads; an offset that is no `u64` does not parse. -/
def payload (frame : Frame) : Option (Write UInt8) :=
  if 0 ≤ frame.offset ∧ frame.offset ≤ u64Max then some ⟨frame.offset.toNat, encode frame.bytes⟩ else none

theorem assemble_byteLen {offset : Int} {bytes sessionId : List Char} {provider : Option (List Char)}
    {now : Nat} {frame : Frame} (h : assemble offset bytes sessionId provider now = some frame) :
    frame.byteLen = (encode frame.bytes).length := by
  obtain ⟨-, hbytes, hlen⟩ := assemble_some h
  rw [hlen, hbytes]

theorem getElem?_readAt {bytes : List UInt8} {p n i : Nat} (h : i < n) :
    (readAt bytes p n)[i]? = bytes[p + i]? := by
  unfold readAt
  rw [List.getElem?_take_of_lt h, List.getElem?_drop]

section Built

variable {file : Transcript} {sessionId : List Char} {frame : Frame}

/-- **A frame that is delivered** is whole, or has the last `TAIL_BYTES - 3` bytes of its span. -/
theorem Built.spec (h : Built file sessionId frame) (hsession : sanitizeSessionId sessionId) :
    ∃ last stop, last < stop ∧ stop ≤ (encode file.text).length ∧ frame.offset + frame.byteLen = stop ∧
      frame.byteLen = (encode frame.bytes).length ∧
      (Whole (encode file.text) last stop frame ∨
        ∃ a b, Elided (encode file.text) last a b stop frame ∧ b + tailBytes ≤ stop + 3) := by
  obtain ⟨last, fileLen, present, provider, now, hlast, hpresent, hlen, hprovider, hnow, hbuild⟩ := h
  have hsize := file.size_le
  have hid : (encode sessionId).length ≤ 128 := by
    unfold sanitizeSessionId at hsession
    simp only [Bool.and_eq_true, decide_eq_true_eq] at hsession
    exact hsession.1.2
  have hnames : ∀ p ∈ providers.map String.toList, (encode p).length ≤ 128 := by decide +kernel
  by_cases hspan : fileLen - last ≤ deltaSoftCap
  · have hlt : last < fileLen := by
      by_contra hge
      unfold buildDeltaFrame at hbuild
      simp only [hspan, if_true] at hbuild
      rw [show fileLen - last = 0 by omega] at hbuild
      exact absurd hbuild (by simp [readAt, trimEndToUtf8Boundary, backOff])
    obtain ⟨stop, hships⟩ := buildDeltaFrame_spec hlast hlt hlen hsize hpresent hbuild
    refine ⟨last, stop, hships.grows, hships.greatest.1.1.le, hships.ends, ?_, .inl (hships.whole hspan)⟩
    unfold buildDeltaFrame at hbuild
    simp only [hspan, if_true] at hbuild
    split at hbuild
    · cases hbuild
    · exact assemble_byteLen hbuild
  · have hcap : headBytes + tailBytes + 210 ≤ deltaSoftCap := by decide
    obtain ⟨a, b, stop, bytes, hcut, htext, heq⟩ := buildElidedFrame_eq now sessionId provider hlast hlen
      hpresent (by decide : 0 < headBytes) (by decide : 4 ≤ tailBytes) (by omega)
    -- the first attempt is not refused
    have hlength := hcut.length_eq htext hlen
    have hstop := hcut.greatest.1.2
    have hhead := hcut.head
    have htail := hcut.tail
    have hgap := hcut.gap
    have hmarker := length_marker_le (n := b - a) (by omega)
    obtain ⟨frame', hframe'⟩ : ∃ frame', assemble (stop - (encode bytes).length) bytes sessionId provider now =
        some frame' :=
      assemble_of_le (by omega) hnow hid (fun p hp => hnames p (hprovider p hp)) (by omega)
    unfold buildDeltaFrame at hbuild
    simp only [hspan, if_false] at hbuild
    rw [heq, hframe'] at hbuild
    obtain rfl : frame' = frame := Option.some.inj hbuild
    obtain ⟨helided, hends⟩ := hcut.elided htext hlen hsize hframe'
    exact ⟨last, stop, helided.head.trans_lt (helided.gap.trans_le helided.tail), hcut.greatest.1.1.le, hends,
      assemble_byteLen hframe', .inr ⟨a, b, helided, htail.2.2⟩⟩

/-- **What a delivered frame writes**: the last `TAIL_BYTES - 3` bytes of its span are the file's. -/
theorem Built.payload_eq (h : Built file sessionId frame) (hsession : sanitizeSessionId sessionId) :
    ∃ w, payload frame = some w ∧ 0 < w.values.length ∧ w.stop ≤ (encode file.text).length ∧
      frame.offset + frame.byteLen = w.stop ∧
      ∀ x, w.Covers x → w.stop ≤ x + (tailBytes - 3) → w.at? x = (encode file.text)[x]? := by
  obtain ⟨last, stop, hlt, hle, hends, hlen, hcase⟩ := h.spec hsession
  have hsize := file.size_le
  have hmax : maxSafeInteger ≤ u64Max := by decide
  have hfacts : 0 ≤ frame.offset ∧ 0 < (encode frame.bytes).length ∧
      ∀ x : Nat, frame.offset ≤ x → x < stop → stop ≤ x + (tailBytes - 3) →
        (encode frame.bytes)[x - frame.offset.toNat]? = (encode file.text)[x]? := by
    rcases hcase with hwhole | ⟨a, b, helided, hbudget⟩
    · have hbytes : (encode frame.bytes).length = stop - last := by
        rw [hwhole.bytes, length_readAt (by omega)]
      have hoffset := hwhole.offset
      refine ⟨by omega, by omega, fun x hx hxs _ => ?_⟩
      rw [hwhole.bytes, getElem?_readAt (by omega)]
      congr 1
      omega
    · have hhead := helided.head
      have hgap := helided.gap
      have htail := helided.tail
      have hafter := helided.after
      have hbytes : (encode frame.bytes).length =
          (a - last) + (encode (marker (b - a : Nat))).length + (stop - b) := by
        rw [helided.bytes, List.length_append, List.length_append, length_readAt (by omega),
          length_readAt (by omega)]
      have htailBytes : tailBytes = 12288 := rfl
      refine ⟨by omega, by omega, fun x hx hxs hxw => ?_⟩
      -- `x` lies in the tail
      rw [helided.bytes, List.getElem?_append_right (by
        rw [List.length_append, length_readAt (by omega)]
        omega), List.length_append, length_readAt (by omega), getElem?_readAt (by omega)]
      congr 1
      omega
  obtain ⟨hnonneg, hpos, hread⟩ := hfacts
  have hstop : frame.offset.toNat + (encode frame.bytes).length = stop := by omega
  refine ⟨⟨frame.offset.toNat, encode frame.bytes⟩, if_pos ⟨hnonneg, by omega⟩, hpos, hstop.trans_le hle,
    hends.trans (congrArg Nat.cast hstop.symm), fun x hx hxw => ?_⟩
  obtain ⟨hx₁, hx₂⟩ := hx
  have hx₂' : x < frame.offset.toNat + (encode frame.bytes).length := hx₂
  have hxw' : frame.offset.toNat + (encode frame.bytes).length ≤ x + (tailBytes - 3) := hxw
  unfold Write.at?
  rw [if_pos hx₁]
  exact hread x (by simp only at hx₁; omega) (by omega) (by omega)

end Built

end Unimatrix.Delta

namespace Unimatrix.TranscriptBuffer

open Machine Utf8 WriteLog Delta

/-! ## Where the span ends -/

theorem Shape.bounded_end {b : TranscriptBuffer} (hb : b.Shape) :
    b.bounded.baseOffset + b.bounded.data.length = b.baseOffset + b.data.length := by
  have hrange := hb.lastHoleEnd_mem
  unfold TranscriptBuffer.bounded
  split
  · rw [raise_baseOffset, raise_data_length]
    omega
  · rfl

/-- Room is made without raising the floor. -/
theorem roomFor_end {b : TranscriptBuffer} {stop : Nat} (h : b.floorFor stop = b.baseOffset) :
    (b.roomFor stop).baseOffset = b.baseOffset ∧ (b.roomFor stop).data.length = b.data.length := by
  unfold roomFor
  rw [raise_baseOffset, raise_data_length, h]
  refine ⟨rfl, ?_⟩
  show b.data.length - (b.baseOffset - b.baseOffset) = b.data.length
  rw [Nat.sub_self, Nat.sub_zero]

/-- **Below the cap the span ends where the last delta does**, or where it did. -/
theorem DeltaStep.end_eq {b b' : TranscriptBuffer} {offset : Nat} {bytes : List UInt8}
    (hs : DeltaStep b offset bytes b') (hb : b.Shape) (hmax : offset + bytes.length ≤ u64Max)
    (hcap : offset + bytes.length ≤ b.maxBytes) (hpos : 0 < bytes.length) :
    b'.baseOffset + b'.data.length = max (b.baseOffset + b.data.length) (offset + bytes.length) := by
  have hfloor : b.floorFor (offset + bytes.length) = b.baseOffset := by
    unfold floorFor
    omega
  obtain ⟨hbase, hroom⟩ := roomFor_end hfloor
  cases hs with
  | overflow h => omega
  | empty h he =>
    rw [he] at hpos
    cases hpos
  | below h hne hf =>
    show (b.roomFor (offset + bytes.length)).baseOffset + (b.roomFor (offset + bytes.length)).data.length = _
    rw [hroom, hbase]
    omega
  | merged h hne hf =>
    obtain ⟨hstop, -, -⟩ := placed_fits hne hf
    have hlen := write_data_length
      (b := (b.roomFor (offset + bytes.length)).elide (b.floorFor (offset + bytes.length) - offset))
      (bytes.drop (b.floorFor (offset + bytes.length) - offset))
      (le_max_left (b.floorFor (offset + bytes.length)) offset)
    have hplaced : (b.placed offset bytes).data.length =
        max b.data.length (offset + bytes.length - b.baseOffset) := by
      refine hlen.trans ?_
      rw [hstop]
      show max (b.roomFor (offset + bytes.length)).data.length
        (offset + bytes.length - b.floorFor (offset + bytes.length)) = _
      rw [hroom, hfloor]
    rw [foldActivity_baseOffset, foldActivity_data, (hb.placed h hne hf).bounded_end, hplaced]
    show b.floorFor (offset + bytes.length) + _ = _
    rw [hfloor] at hf ⊢
    omega

/-- **The span ends at the largest end that has arrived.** -/
theorem calls_deltas_end {maxBytes : Nat} (scanner : SignatureScanner) {ds : List (Write UInt8)}
    (hds : ∀ w ∈ ds, 0 < w.values.length ∧ w.stop ≤ maxBytes ∧ w.stop ≤ u64Max) :
    ∃ b, (new maxBytes scanner).calls (deltas ds) = some b ∧ b.WF ∧ b.maxBytes = maxBytes ∧
      b.baseOffset + b.data.length = highStop ds ∧ (if ds = [] then b.baseOffset = 0 else 0 < b.data.length) := by
  induction ds using List.reverseRecOn with
  | nil => exact ⟨_, rfl, new_wf maxBytes scanner, rfl, rfl, rfl⟩
  | append_singleton ds w ih =>
    obtain ⟨b, hrun, hb, hmax, hend, hdata⟩ := ih fun v hv => hds v (List.mem_append_left _ hv)
    obtain ⟨hpos, hcap, hle⟩ := hds w (List.mem_append_right _ List.mem_cons_self)
    obtain ⟨b', hb', hs⟩ := hb.applyDelta_step w.offset w.values
    refine ⟨b', ?_, hs.wf hb, hs.maxBytes_eq.trans hmax, ?_, ?_⟩
    · rw [calls_deltas_snoc, hrun]
      exact hb'
    · rw [hs.end_eq hb.toShape hle (hmax.symm ▸ hcap) hpos, hend, highStop_snoc]
      rfl
    · rw [if_neg (by simp)]
      split at hdata
      · -- the first delta reaches above the floor 0
        have hf : b.floorFor (w.offset + w.values.length) < w.offset + w.values.length := by
          have hcap' : w.offset + w.values.length ≤ b.maxBytes := hmax.symm ▸ hcap
          unfold floorFor
          omega
        cases hs with
        | overflow h => exact absurd hle (not_le.mpr h)
        | empty h he => exact absurd hpos (by rw [he]; exact lt_irrefl 0)
        | below h hne hf' => exact absurd hf' (not_le.mpr hf)
        | merged h hne hf =>
          rw [foldActivity_data]
          exact hb.toShape.merged_pos h hne hf
      · exact hs.data_pos hb.toShape hdata

/-! ## The tail -/

/-- What a buffer holds is a byte of a delta that covers it. -/
theorem calls_deltas_cell {maxBytes : Nat} {scanner : SignatureScanner} {ds : List (Write UInt8)}
    {b : TranscriptBuffer} (hrun : (new maxBytes scanner).calls (deltas ds) = some b) {x : Nat} {v : UInt8}
    (hbase : b.baseOffset ≤ x) (hcell : b.cell x = some v) : ∃ w ∈ ds, w.Covers x ∧ w.at? x = some v := by
  obtain ⟨b', log, hlog, -, hholds⟩ := run_holds maxBytes scanner (deltas ds)
  have hsame := acceptedLog_fst (deltas ds) (new maxBytes scanner) []
  rw [hlog, hrun] at hsame
  obtain rfl : b' = b := Option.some.inj hsame
  rw [hholds x hbase] at hcell
  obtain ⟨w, hw, hat⟩ := exists_write_of_lastWrite hcell
  refine ⟨w, ?_, ?_, hat⟩
  · rcases mem_acceptedLog hlog hw with h | h
    · cases h
    · obtain ⟨v, hv, heq⟩ := List.mem_map.mp h
      obtain ⟨hoffset, hvalues⟩ := BufferCall.applyDelta.inj heq
      have : v = w := by
        cases v
        cases w
        simp only at hoffset hvalues
        rw [hoffset, hvalues]
      rwa [← this]
  · by_contra hno
    rw [Write.at?_eq_none_iff.mpr hno] at hat
    cases hat

section Delivered

variable {file : Transcript} {sessionId : List Char} {frames : List Frame}

/-- What the frames write, each in its place. -/
theorem of_mem_payload (hsession : sanitizeSessionId sessionId)
    (hframes : ∀ frame ∈ frames, Built file sessionId frame) {w : Write UInt8} (hw : w ∈ frames.filterMap payload) :
    0 < w.values.length ∧ w.stop ≤ (encode file.text).length ∧
      (∃ frame ∈ frames, frame.offset + frame.byteLen = w.stop) ∧
      ∀ x, w.Covers x → w.stop ≤ x + (tailBytes - 3) → w.at? x = (encode file.text)[x]? := by
  obtain ⟨frame, hframe, hpay⟩ := List.mem_filterMap.mp hw
  obtain ⟨w', hw', hpos, hstop, hends, hread⟩ := (hframes frame hframe).payload_eq hsession
  obtain rfl : w' = w := Option.some.inj (hw'.symm.trans hpay)
  exact ⟨hpos, hstop, ⟨frame, hframe, hends⟩, hread⟩

/-- The frame that ends last ends where the writes do. -/
theorem highStop_of_largest (hsession : sanitizeSessionId sessionId)
    (hframes : ∀ frame ∈ frames, Built file sessionId frame) {frame : Frame} (hframe : frame ∈ frames)
    (hlargest : ∀ f ∈ frames, f.offset + f.byteLen ≤ frame.offset + frame.byteLen) :
    frames.filterMap payload ≠ [] ∧
      ((highStop (frames.filterMap payload) : Nat) : Int) = frame.offset + frame.byteLen := by
  obtain ⟨w, hw, -, -, hends, -⟩ := (hframes frame hframe).payload_eq hsession
  have hmem : w ∈ frames.filterMap payload := List.mem_filterMap.mpr ⟨frame, hframe, hw⟩
  have hhigh : highStop (frames.filterMap payload) = w.stop := by
    refine eq_of_forall_lt_iff fun x => ?_
    rw [lt_highStop]
    constructor
    · rintro ⟨v, hv, hx⟩
      obtain ⟨-, -, ⟨f, hf, hends'⟩, -⟩ := of_mem_payload hsession hframes hv
      have hle := hlargest f hf
      omega
    · exact fun hx => ⟨w, hmem, hx⟩
  exact ⟨List.ne_nil_of_mem hmem, by rw [hhigh, hends]⟩

end Delivered

/-- **Within the window the tail is the file**, and it ends at the largest end once that has arrived. -/
theorem tail_faithful (file : Transcript) (sessionId : List Char) (maxBytes : Nat) (scanner : SignatureScanner)
    (hcap : (encode file.text).length ≤ maxBytes) (hsession : sanitizeSessionId sessionId)
    (frames : List Frame) (hframes : ∀ frame ∈ frames, Built file sessionId frame) (window : Nat)
    (hwindow : window ≤ tailBytes - 3) :
    ∃ b tail, (new maxBytes scanner).calls (deltas (frames.filterMap payload)) = some b ∧
      b.contiguousTail window = some tail ∧
      (∀ bytes, tail = some bytes → ∀ i < bytes.length,
        bytes[i]? = (encode file.text)[b.baseOffset + b.data.length - bytes.length + i]?) ∧
      ∀ frame ∈ frames, (∀ f ∈ frames, f.offset + f.byteLen ≤ frame.offset + frame.byteLen) →
        ((b.baseOffset + b.data.length : Nat) : Int) = frame.offset + frame.byteLen ∧
          (0 < window → ∃ bytes, tail = some bytes ∧ bytes ≠ []) := by
  have hsize : (encode file.text).length ≤ u64Max := file.size_le.trans (by decide)
  have hpayload : ∀ w ∈ frames.filterMap payload, _ := fun w hw => of_mem_payload hsession hframes hw
  obtain ⟨b, hrun, hwf, -, hend, hdata⟩ := calls_deltas_end scanner fun w hw =>
    let ⟨hpos, hstop, _⟩ := hpayload w hw
    ⟨hpos, hstop.trans hcap, hstop.trans hsize⟩
  obtain ⟨tail, htail, hnone, hcells⟩ := hwf.contiguousTail_cells window
  refine ⟨b, tail, hrun, htail, fun bytes hbytes i hi => ?_, fun frame hframe hlargest => ?_⟩
  · obtain ⟨hlen, hdrop, hcell⟩ := hcells bytes hbytes
    obtain ⟨hbase, hi'⟩ := hcell i hi
    have hle : bytes.length ≤ b.data.length := by
      rw [hdrop, List.length_drop]
      omega
    generalize hx : b.baseOffset + b.data.length - bytes.length + i = x at hbase hi' ⊢
    rw [List.getElem?_eq_getElem hi] at hi' ⊢
    obtain ⟨w, hw, hcovers, hat⟩ := calls_deltas_cell hrun hbase hi'
    have hstop : w.stop ≤ b.baseOffset + b.data.length := by
      rw [hend]
      exact Nat.le_of_not_lt fun hlt => absurd (lt_highStop.mpr ⟨w, hw, hlt⟩) (lt_irrefl _)
    rw [← hat]
    exact (hpayload w hw).2.2.2 x hcovers (by omega)
  · obtain ⟨hmem, hhigh⟩ := highStop_of_largest hsession hframes hframe hlargest
    refine ⟨by rw [hend, hhigh], fun hwin => ?_⟩
    rw [if_neg hmem] at hdata
    have hne := List.ne_nil_of_length_pos hdata
    cases tail with
    | none => exact absurd (hnone.mp rfl) (not_or.mpr ⟨hne, by omega⟩)
    | some bytes =>
      obtain ⟨hlen, -, -⟩ := hcells bytes rfl
      have hlast := hwf.toShape.lastHoleEnd_lt hne
      exact ⟨bytes, rfl, List.ne_nil_of_length_pos (by omega)⟩

/-- The frames of two processes, the later one first and twice. -/
def accentedFrames : List Frame :=
  [(1, 3), (0, 2), (1, 3)].filterMap fun span =>
    buildDeltaFrame (some ((encode accented.text).take 3)) span.1 span.2 ['s'] none 7

theorem accentedFrames_built (frame : Frame) (h : frame ∈ accentedFrames) : Built accented ['s'] frame := by
  obtain ⟨⟨last, fileLen⟩, hspan, hbuild⟩ := List.mem_filterMap.mp h
  have hcases : (last = 0 ∨ last = 1) ∧ fileLen ≤ 3 := by
    simp only [List.mem_cons, Prod.mk.injEq, List.not_mem_nil, or_false] at hspan
    omega
  have hlength : (encode accented.text).length = 3 := by decide +kernel
  refine ⟨last, fileLen, 3, none, 7, ?_, hcases.2, hlength.symm ▸ hcases.2, (fun p hp => by cases hp), by decide,
    hbuild⟩
  rcases hcases.1 with rfl | rfl
  · exact boundary_zero _
  · exact ⟨['a'], ['\u00e9'], rfl, by decide +kernel⟩

/-- The theorem above at these frames, for a window of two bytes. -/
theorem tail_faithful_accented :
    ∃ b tail, (new 8 .empty).calls (deltas (accentedFrames.filterMap payload)) = some b ∧
      b.contiguousTail 2 = some tail ∧
      (∀ bytes, tail = some bytes → ∀ i < bytes.length,
        bytes[i]? = (encode accented.text)[b.baseOffset + b.data.length - bytes.length + i]?) ∧
      ∀ frame ∈ accentedFrames, (∀ f ∈ accentedFrames, f.offset + f.byteLen ≤ frame.offset + frame.byteLen) →
        ((b.baseOffset + b.data.length : Nat) : Int) = frame.offset + frame.byteLen ∧
          (0 < 2 → ∃ bytes, tail = some bytes ∧ bytes ≠ []) :=
  tail_faithful accented ['s'] 8 .empty (by decide +kernel) (by decide +kernel) accentedFrames
    accentedFrames_built 2 (by decide)

end Unimatrix.TranscriptBuffer
