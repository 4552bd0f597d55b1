import Mathlib.Data.List.GetD
import Mathlib.Data.List.Induction
import Unimatrix.Lib.Encode

/-!
# The transcript sender

Model of `delta.js` and of the offset in `state.js`: each hook process ships what the transcript has grown by since
the offset it reads, and writes the new offset when the frame has been taken.

* The transcript only grows: `text` is what it is in the end, and a process finds a prefix of its bytes. `observed` is
  the length `stat` reports (`none` where it throws), `present` the length when the bytes are read; a file that cannot
  be opened or read is `readable := false`.
* A JavaScript number holds lengths up to `maxSafeInteger`, so `Transcript` keeps the length below it.
* `Frame.bytes` is the text that the body carries as JSON, kept beside the body.

`maybeSendDelta` is one process, `run` some of them. One of them ships the file from its offset to the last boundary
it can see, whole (`Whole`) or with the middle left out (`Elided`): `buildDeltaFrame_spec`. Hence **`delta_safe`**.
-/

namespace Unimatrix.Delta

open Utf8

/-! ## The code -/

/-- `DELTA_SOFT_CAP`. -/
def deltaSoftCap : Nat := 65536

/-- `HEAD_BYTES`. -/
def headBytes : Nat := 49152

/-- `TAIL_BYTES`. -/
def tailBytes : Nat := 12288

/-- `BODY_GUARD`. -/
def bodyGuard : Nat := 1048576

/-- `Number.MAX_SAFE_INTEGER`. -/
def maxSafeInteger : Nat := 2 ^ 53 - 1

/-- `utf8SeqLen`. -/
def utf8SeqLen (b : UInt8) : Nat :=
  if b < 0x80 then 1
  else if 0xc0 ≤ b ∧ b < 0xe0 then 2
  else if 0xe0 ≤ b ∧ b < 0xf0 then 3
  else if 0xf0 ≤ b ∧ b < 0xf8 then 4
  else 1

/-- `(b & 0xc0) === 0x80`. -/
def isCont (b : UInt8) : Bool := b &&& 0xc0 == 0x80

/-- The loop of `trimEndToUtf8Boundary`, from `i + 1`. -/
def backOff (buf : List UInt8) : Nat → Nat
  | 0 => 0
  | i + 1 => if buf.length ≤ i + 4 ∧ isCont (buf.getD i 0) then backOff buf i else i + 1

/-- `trimEndToUtf8Boundary`. -/
def trimEndToUtf8Boundary (buf : List UInt8) : Nat :=
  match backOff buf buf.length with
  | 0 => 0
  | i + 1 =>
    if i + 4 < buf.length then buf.length
    else if i + utf8SeqLen (buf.getD i 0) ≤ buf.length then buf.length
    else i

/-- `trimStartToUtf8Boundary`. -/
def trimStartToUtf8Boundary (buf : List UInt8) : Nat := ((buf.take 4).takeWhile isCont).length

/-- `readAt`. -/
def readAt (file : List UInt8) (position length : Nat) : List UInt8 := (file.drop position).take length

/-- An integer in decimal. -/
def decimal (n : Int) : List Char :=
  if n < 0 then '-' :: Nat.toDigits 10 n.natAbs else Nat.toDigits 10 n.natAbs

/-- A character of a JSON string. -/
def escapeChar (c : Char) : List Char :=
  if c.toNat = 0x22 then ['\\', '"']
  else if c.toNat = 0x5c then ['\\', '\\']
  else if c.toNat = 0x08 then ['\\', 'b']
  else if c.toNat = 0x09 then ['\\', 't']
  else if c.toNat = 0x0a then ['\\', 'n']
  else if c.toNat = 0x0c then ['\\', 'f']
  else if c.toNat = 0x0d then ['\\', 'r']
  else if c.toNat < 0x20 then
    ['\\', 'u', '0', '0', Nat.digitChar (c.toNat / 16), Nat.digitChar (c.toNat % 16)]
  else [c]

/-- `JSON.stringify` of a string. -/
def jsonString (s : List Char) : List Char := '"' :: (s.flatMap escapeChar ++ ['"'])

/-- `JSON.stringify` of an object, given the texts of its values. -/
def jsonObject (fields : List (String × List Char)) : List Char :=
  '{' :: ([','].intercalate (fields.map fun f => jsonString f.1.toList ++ ':' :: f.2) ++ ['}'])

/-- What is sent. -/
structure Frame where
  bodyBuf : List UInt8
  offset : Int
  byteLen : Nat
  bytes : List Char
  deriving DecidableEq

/-- The text of the request; `implantEvent` leaves out a provider there is not. -/
def frameText (offset : Int) (bytes sessionId : List Char) (provider : Option (List Char)) (now : Nat) :
    List Char :=
  jsonObject <|
    [("type", jsonString "RecordEvent".toList), ("event_type", jsonString "transcript_delta".toList),
      ("session_id", jsonString sessionId), ("timestamp", decimal now),
      ("payload", jsonObject [("offset", decimal offset), ("bytes", jsonString bytes)])] ++
    provider.toList.map fun p => ("provider", jsonString p)

/-- `assemble`. -/
def assemble (offset : Int) (bytes sessionId : List Char) (provider : Option (List Char)) (now : Nat) :
    Option Frame :=
  let bodyBuf := encode (frameText offset bytes sessionId provider now)
  if bodyGuard < bodyBuf.length then none else some ⟨bodyBuf, offset, (encode bytes).length, bytes⟩

/-- The marker for bytes left out. -/
def marker (nElided : Int) : List Char := "…[".toList ++ decimal nElided ++ " bytes elided]…".toList

/-- `buildElidedFrame`. -/
def buildElidedFrame (file : List UInt8) (last fileLen : Nat) (sessionId : List Char)
    (provider : Option (List Char)) (now headLimit tailLimit : Nat) : Option Frame :=
  let tailProbe := readAt file (fileLen - tailLimit) tailLimit
  let keptLen := trimEndToUtf8Boundary tailProbe
  let effectiveEnd := fileLen - tailLimit + keptLen
  let tailStartRaw := effectiveEnd - tailLimit
  let tailBuf := readAt file tailStartRaw tailLimit
  let s := trimStartToUtf8Boundary tailBuf
  let tailStr := decode (tailBuf.drop s)
  let headBuf := readAt file last headLimit
  let e := trimEndToUtf8Boundary headBuf
  let headStr := decode (headBuf.take e)
  let nElided : Int := (tailStartRaw + s : Nat) - (last + e : Nat)
  let bytes := headStr ++ marker nElided ++ tailStr
  let offset : Int := effectiveEnd - (encode bytes).length
  assemble offset bytes sessionId provider now

/-- `buildDeltaFrame`. -/
def buildDeltaFrame (file : Option (List UInt8)) (last fileLen : Nat) (sessionId : List Char)
    (provider : Option (List Char)) (now : Nat) : Option Frame :=
  match file with
  | none => none
  | some file =>
    if fileLen - last ≤ deltaSoftCap then
      let raw := readAt file last (fileLen - last)
      let stop := trimEndToUtf8Boundary raw
      if stop = 0 then none
      else assemble last (decode (raw.take stop)) sessionId provider now
    else
      match buildElidedFrame file last fileLen sessionId provider now headBytes tailBytes with
      | some frame => some frame
      | none => buildElidedFrame file last fileLen sessionId provider now (headBytes / 2) (tailBytes / 2)

/-- `readOffset`: the offset in the state file, `none` where there is none or none that parses. -/
def readOffset (stored : Option Int) : Nat :=
  match stored with
  | some v => if 0 ≤ v ∧ v ≤ maxSafeInteger then v.toNat else 0
  | none => 0

/-- What a process finds and what becomes of its calls. -/
structure Spawn where
  observed : Option Nat
  present : Nat
  readable : Bool
  provider : Option (List Char)
  now : Nat
  sendOk : Bool
  writeOk : Bool

/-- What `maybeSendDelta` reports. -/
inductive DeltaOutcome where
  | stat
  | rewind
  | unchanged
  | emptySpan
  | attempted (frame : Frame) (ok : Bool)

/-- `writeOffset`. -/
def writeOffset (stored : Option Int) (ok : Bool) (offset : Int) : Option Int :=
  if ok then some offset else stored

/-- `maybeSendDelta`: the offset it leaves behind, and what it reports. -/
def maybeSendDelta (text : List UInt8) (sessionId : List Char) (stored : Option Int) (p : Spawn) :
    Option Int × DeltaOutcome :=
  let last := readOffset stored
  match p.observed with
  | none => (stored, .stat)
  | some fileLen =>
    if fileLen < last then (writeOffset stored p.writeOk fileLen, .rewind)
    else if fileLen = last then (stored, .unchanged)
    else
      let file := if p.readable then some (text.take p.present) else none
      match buildDeltaFrame file last fileLen sessionId p.provider p.now with
      | none => (stored, .emptySpan)
      | some frame =>
        if p.sendOk then
          (writeOffset stored p.writeOk (frame.offset + frame.byteLen), .attempted frame true)
        else (stored, .attempted frame false)

/-! ## Boundaries -/

theorem isCont_iff (b : UInt8) : isCont b = true ↔ IsContinuation b := by
  have h : ∀ n : Fin 256, (isCont (UInt8.ofNat n) = true ↔ 0x80 ≤ n.val ∧ n.val ≤ 0xBF) := by
    decide +kernel
  have hb := h ⟨b.toNat, b.toNat_lt⟩
  rwa [UInt8.ofNat_toNat] at hb

theorem utf8SeqLen_eq {b : UInt8} {t : List UInt8} (h : Sequence b t) : utf8SeqLen b = t.length + 1 := by
  have hfirst := h.first
  unfold utf8SeqLen
  simp only [UInt8.lt_iff_toNat_lt, UInt8.le_iff_toNat_le, UInt8.reduceToNat]
  split
  · omega
  split
  · omega
  split
  · omega
  split
  · omega
  · omega

/-- The loop goes back over the continuation bytes at the end. -/
theorem backOff_eq {x : List UInt8} {b : UInt8} {t : List UInt8} (hb : isCont b = false)
    (ht : ∀ y ∈ t, isCont y) (hlen : t.length ≤ 3) (k : Nat) (hk : k ≤ t.length) :
    backOff (x ++ b :: t) (x.length + 1 + k) = x.length + 1 := by
  induction k with
  | zero =>
    unfold backOff
    rw [List.getD_append_right _ _ _ _ (Nat.le_refl _), Nat.sub_self, List.getD_cons_zero, hb]
    simp
  | succ k ih =>
    have hget : (x ++ b :: t).getD (x.length + 1 + k) 0 = t.get ⟨k, hk⟩ := by
      rw [List.getD_append_right _ _ _ _ (by omega), show x.length + 1 + k - x.length = k + 1 by omega,
        List.getD_cons_succ, List.getD_eq_getElem _ _ hk]
      rfl
    have hcont : isCont ((x ++ b :: t).getD (x.length + 1 + k) 0) = true := by
      rw [hget]
      exact ht _ (List.get_mem t _)
    change backOff (x ++ b :: t) (x.length + 1 + k + 1) = _
    unfold backOff
    rw [if_pos ⟨by simp only [List.length_append, List.length_cons]; omega, hcont⟩]
    exact ih (Nat.le_of_succ_le hk)

/-- **A buffer that ends with the first bytes of a character is cut before it, unless it is all there.** -/
theorem trimEnd_eq (x : List UInt8) {c : Char} {u v : List UInt8} (hc : String.utf8EncodeChar c = u ++ v)
    (hu : u ≠ []) :
    trimEndToUtf8Boundary (x ++ u) = if v = [] then x.length + u.length else x.length := by
  obtain ⟨b, t, hbt, hseq⟩ := encodeChar_sequence c
  obtain ⟨b', t', rfl⟩ := List.exists_cons_of_ne_nil hu
  have hcons : b :: t = b' :: (t' ++ v) := by rw [← hbt, hc, List.cons_append]
  obtain ⟨rfl, rfl⟩ := List.cons.inj hcons
  have hb : isCont b = false := by
    rw [Bool.eq_false_iff]
    exact fun h => hseq.not_continuation ((isCont_iff b).mp h)
  have hlen := hseq.length_le
  rw [List.length_append] at hlen
  have hloop := backOff_eq (x := x) hb
    (fun y hy => (isCont_iff y).mpr (hseq.continuation y (List.mem_append_left _ hy)))
    (by omega) t'.length (Nat.le_refl _)
  have hsize : (x ++ b :: t').length = x.length + 1 + t'.length := by
    simp only [List.length_append, List.length_cons]
    omega
  unfold trimEndToUtf8Boundary
  rw [hsize, hloop]
  simp only
  rw [if_neg (by omega), List.getD_append_right _ _ _ _ (Nat.le_refl _), Nat.sub_self,
    List.getD_cons_zero, utf8SeqLen_eq hseq, List.length_append, List.length_cons]
  by_cases hv : v = []
  · rw [if_pos (by simp only [hv, List.length_nil]; omega), if_pos hv]
    omega
  · have := List.length_pos_iff.mpr hv
    rw [if_neg (by omega), if_neg hv]

/-- A buffer that begins inside a character is read from the next one on. -/
theorem trimStart_eq {t : List UInt8} {cs : List Char} (ht : ∀ y ∈ t, IsContinuation y)
    (hlen : t.length ≤ 3) (hcs : cs ≠ []) : trimStartToUtf8Boundary (t ++ encode cs) = t.length := by
  obtain ⟨c, cs, rfl⟩ := List.exists_cons_of_ne_nil hcs
  obtain ⟨b, r, hbr, hseq⟩ := encodeChar_sequence c
  have hb : isCont b = false := by
    rw [Bool.eq_false_iff]
    exact fun h => hseq.not_continuation ((isCont_iff b).mp h)
  obtain ⟨n, hn⟩ : ∃ n, 4 - t.length = n + 1 := ⟨3 - t.length, by omega⟩
  unfold trimStartToUtf8Boundary
  rw [encode_cons, hbr, List.cons_append, List.take_append, List.take_of_length_le (by omega), hn,
    List.take_succ_cons, List.takeWhile_append_of_pos (fun y hy => (isCont_iff y).mpr (ht y hy)),
    List.takeWhile_cons_of_neg (by rw [hb]; exact Bool.false_ne_true), List.append_nil]

theorem readAt_take {file : List UInt8} {p n m : Nat} (h : p + n ≤ m) :
    readAt (file.take m) p n = readAt file p n := by
  unfold readAt
  rw [List.drop_take, List.take_take, Nat.min_eq_left (by omega)]

theorem length_readAt {file : List UInt8} {p n : Nat} (h : p + n ≤ file.length) :
    (readAt file p n).length = n := by
  unfold readAt
  rw [List.length_take, List.length_drop]
  omega

theorem take_readAt {file : List UInt8} {p n k : Nat} (h : k ≤ n) :
    (readAt file p n).take k = readAt file p k := by
  unfold readAt
  rw [List.take_take, Nat.min_eq_left h]

theorem drop_readAt (file : List UInt8) (p n k : Nat) :
    (readAt file p n).drop k = readAt file (p + k) (n - k) := by
  unfold readAt
  rw [List.drop_take, List.drop_drop]

/-- What lies before a place of the text, read from `p` on. -/
theorem readAt_encode (pre : List Char) {post : List Char} {u v : List UInt8} (huv : encode post = u ++ v) {p : Nat}
    (hp : p ≤ (encode pre).length) :
    readAt (encode (pre ++ post)) p ((encode pre).length + u.length - p) = (encode pre).drop p ++ u := by
  unfold readAt
  rw [encode_append, huv, ← List.append_assoc, List.drop_append_of_le_length
    (by rw [List.length_append]; omega), List.drop_append_of_le_length hp]
  refine List.take_left' ?_
  rw [List.length_append, List.length_drop]
  omega

section Text

variable {cs : List Char} {p n : Nat}

/-- **Up to the last boundary**: what a buffer that ends at `n` keeps. -/
theorem trimEnd_readAt (hp : Boundary cs p ∨ p + 4 ≤ n) (hlt : p < n) (hn : n ≤ (encode cs).length) :
    IsGreatest {b | Boundary cs b ∧ b ≤ n} (p + trimEndToUtf8Boundary (readAt (encode cs) p (n - p))) := by
  obtain ⟨pre, c, post, u, v, rfl, hc, hu, rfl⟩ := take_encode (by omega) hn
  have hlen : u.length ≤ 4 ∧ u.length + v.length = (String.utf8EncodeChar c).length := by
    have hle := length_encodeChar_le c
    rw [hc, List.length_append] at hle ⊢
    omega
  have hpos := List.length_pos_iff.mpr hu
  have hle : p ≤ (encode pre).length := by
    rcases hp with hp | hp
    · exact hp.le_of_lt (by omega)
    · omega
  have hpost : encode (c :: post) = u ++ (v ++ encode post) := by
    rw [encode_cons, hc, List.append_assoc]
  have hsplit : p + (if v = [] then ((encode pre).drop p).length + u.length else ((encode pre).drop p).length) =
      if v = [] then (encode pre).length + u.length else (encode pre).length := by
    rw [List.length_drop]
    split <;> omega
  rw [readAt_encode pre hpost hle, trimEnd_eq _ hc hu, hsplit]
  exact isGreatest_boundary pre post hc

/-- From the first boundary on: what a buffer that ends at a boundary keeps. -/
theorem trimStart_readAt (hn : Boundary cs n) (hlt : p + 4 ≤ n) :
    trimStartToUtf8Boundary (readAt (encode cs) p (n - p)) ≤ 3 ∧
      Boundary cs (p + trimStartToUtf8Boundary (readAt (encode cs) p (n - p))) := by
  obtain ⟨pre, post, rfl, rfl⟩ := hn
  have hread := readAt_encode pre (List.nil_append (encode post)).symm (p := p) (by omega)
  rw [List.append_nil, List.length_nil, Nat.add_zero] at hread
  obtain ⟨t, pre₁, pre₂, rfl, hdrop, hlen, ht, hsum⟩ := drop_encode pre (n := p) (by omega)
  have hne : pre₂ ≠ [] := by
    rintro rfl
    rw [List.append_nil] at hlt
    omega
  rw [hread, hdrop, trimStart_eq ht hlen hne]
  exact ⟨hlen, pre₁, pre₂ ++ post, List.append_assoc _ _ _, hsum⟩

/-- Between two boundaries there is a text. -/
theorem readAt_text (hp : Boundary cs p) (hn : Boundary cs n) (hle : p ≤ n) :
    encode (decode (readAt (encode cs) p (n - p))) = readAt (encode cs) p (n - p) := by
  suffices h : ∃ mid, readAt (encode cs) p (n - p) = encode mid by
    obtain ⟨mid, hmid⟩ := h
    rw [hmid, decode_encode]
  obtain ⟨pre, post, rfl, rfl⟩ := hp
  obtain ⟨pre', post', hsplit, rfl⟩ := hn
  rcases List.append_eq_append_iff.mp hsplit with ⟨r, rfl, rfl⟩ | ⟨r, rfl, rfl⟩
  · refine ⟨r, ?_⟩
    have hread := readAt_encode pre (encode_append r post') (Nat.le_refl _)
    rw [List.drop_length, List.nil_append] at hread
    rw [encode_append pre r, List.length_append]
    exact hread
  · refine ⟨[], ?_⟩
    rw [encode_append, List.length_append] at hle
    rw [encode_append pre' r, List.length_append, show (encode pre').length -
      ((encode pre').length + (encode r).length) = 0 by omega]
    rfl

end Text

/-! ## Frames -/

theorem assemble_some {offset : Int} {bytes sessionId : List Char} {provider : Option (List Char)}
    {now : Nat} {frame : Frame} (h : assemble offset bytes sessionId provider now = some frame) :
    frame.offset = offset ∧ frame.bytes = bytes ∧ frame.byteLen = (encode bytes).length := by
  unfold assemble at h
  simp only at h
  split at h
  · cases h
  · cases h
    exact ⟨rfl, rfl, rfl⟩

/-- A number of the code has at most 16 digits. -/
theorem length_marker_le {n : Nat} (h : n ≤ maxSafeInteger) : (encode (marker n)).length ≤ 200 := by
  have hdigits : (Nat.toDigits 10 n).length ≤ 16 :=
    (Nat.length_toDigits_le_iff (by decide) (by decide)).mpr (by unfold maxSafeInteger at h; omega)
  have hdecimal : decimal n = Nat.toDigits 10 n := by
    unfold decimal
    rw [if_neg (by omega), Int.natAbs_natCast]
  have hle := length_encode_le (marker n)
  have hlen : (marker n).length = 17 + (Nat.toDigits 10 n).length := by
    unfold marker
    rw [hdecimal]
    simp only [List.length_append, String.length_toList]
    have h₁ : "…[".length = 2 := by decide
    have h₂ : " bytes elided]…".length = 15 := by decide
    omega
  omega

/-- The frame is the file from `last` to `stop`. -/
structure Whole (file : List UInt8) (last stop : Nat) (frame : Frame) : Prop where
  offset : frame.offset = last
  bytes : encode frame.bytes = readAt file last (stop - last)

/-- Of the file from `last` to `stop` the text has what lies before `a` and from `b` on, and a marker that counts the
bytes between. -/
def ElidedText (file : List UInt8) (last a b stop : Nat) (bytes : List Char) : Prop :=
  encode bytes = readAt file last (a - last) ++ encode (marker (b - a : Nat)) ++ readAt file b (stop - b)

/-- The frame has such a text. -/
structure Elided (file : List UInt8) (last a b stop : Nat) (frame : Frame) : Prop where
  head : last ≤ a
  gap : a < b
  tail : b ≤ stop
  bytes : ElidedText file last a b stop frame.bytes
  after : last < frame.offset

section Build

variable {cs : List Char} {last fileLen present now : Nat} {sessionId : List Char}
  {provider : Option (List Char)} {frame : Frame}

/-- Where an elided frame is cut: it has the bytes from `last` to `a` and from `b` to the last boundary `stop`. -/
structure Cut (cs : List Char) (last fileLen headLimit tailLimit a b stop : Nat) : Prop where
  greatest : IsGreatest {b | Boundary cs b ∧ b ≤ fileLen} stop
  head : last ≤ a ∧ a ≤ last + headLimit
  gap : a + 200 < b
  tail : b ≤ stop ∧ stop ≤ b + tailLimit ∧ b + tailLimit ≤ stop + 3

variable (now sessionId provider) in
/-- **An elided frame ends at the last boundary**, and its text is cut at boundaries. -/
theorem buildElidedFrame_eq {headLimit tailLimit : Nat} (hlast : Boundary cs last)
    (hlen : fileLen ≤ (encode cs).length) (hpresent : fileLen ≤ present) (hhead : 0 < headLimit)
    (htail : 4 ≤ tailLimit) (hspan : last + headLimit + tailLimit + 210 ≤ fileLen) :
    ∃ a b stop bytes, Cut cs last fileLen headLimit tailLimit a b stop ∧
      ElidedText (encode cs) last a b stop bytes ∧
      buildElidedFrame ((encode cs).take present) last fileLen sessionId provider now headLimit tailLimit =
        assemble (stop - (encode bytes).length) bytes sessionId provider now := by
  -- where the frame ends
  have hstop := trimEnd_readAt (p := fileLen - tailLimit) (.inr (by omega)) (by omega) hlen
  rw [show fileLen - (fileLen - tailLimit) = tailLimit by omega] at hstop
  unfold buildElidedFrame
  simp only
  rw [readAt_take (p := fileLen - tailLimit) (by omega)]
  generalize fileLen - tailLimit + trimEndToUtf8Boundary (readAt (encode cs) (fileLen - tailLimit) tailLimit) =
    stop at hstop ⊢
  have hstop_le : stop ≤ fileLen := hstop.1.2
  have hstop_ge : fileLen ≤ stop + 3 := by
    obtain ⟨b, hb, hle, hge⟩ := exists_boundary hlen
    have := hstop.2 ⟨hb, hle⟩
    omega
  -- where its tail begins
  obtain ⟨hs, hb⟩ := trimStart_readAt (p := stop - tailLimit) hstop.1.1 (by omega)
  rw [show stop - (stop - tailLimit) = tailLimit by omega] at hs hb
  rw [readAt_take (p := stop - tailLimit) (by omega)]
  generalize trimStartToUtf8Boundary (readAt (encode cs) (stop - tailLimit) tailLimit) = s at hs hb ⊢
  -- where its head ends
  have ha := trimEnd_readAt (n := last + headLimit) (.inl hlast) (by omega) (by omega)
  rw [Nat.add_sub_cancel_left] at ha
  rw [readAt_take (p := last) (by omega)]
  generalize trimEndToUtf8Boundary (readAt (encode cs) last headLimit) = e at ha ⊢
  have he : last + e ≤ last + headLimit := ha.1.2
  have hle_a : last ≤ last + e := Nat.le_add_right _ _
  have hgap : ((stop - tailLimit + s : Nat) : Int) - ((last + e : Nat) : Int) =
      ((stop - tailLimit + s - (last + e) : Nat) : Int) := by omega
  rw [hgap, take_readAt (by omega), drop_readAt]
  have hhead := readAt_text hlast ha.1.1 hle_a
  have htail := readAt_text hb hstop.1.1 (by omega)
  rw [Nat.add_sub_cancel_left] at hhead
  rw [show stop - (stop - tailLimit + s) = tailLimit - s by omega] at htail
  refine ⟨last + e, stop - tailLimit + s, stop, _, ⟨hstop, ⟨hle_a, he⟩, by omega, by omega⟩, ?_, rfl⟩
  unfold ElidedText
  rw [Nat.add_sub_cancel_left, show stop - (stop - tailLimit + s) = tailLimit - s by omega, encode_append,
    encode_append, hhead, htail]

/-- The length of an elided text. -/
theorem Cut.length_eq {headLimit tailLimit a b stop : Nat} {bytes : List Char}
    (hcut : Cut cs last fileLen headLimit tailLimit a b stop)
    (htext : ElidedText (encode cs) last a b stop bytes) (hlen : fileLen ≤ (encode cs).length) :
    (encode bytes).length = a - last + (encode (marker (b - a : Nat))).length + (stop - b) := by
  have hstop := hcut.greatest.1.2
  have hhead := hcut.head
  have hgap := hcut.gap
  have htail := hcut.tail
  rw [htext, List.length_append, List.length_append, length_readAt (by omega), length_readAt (by omega)]

/-- An elided frame, once it is assembled. -/
theorem Cut.elided {headLimit tailLimit a b stop : Nat} {bytes : List Char}
    (hcut : Cut cs last fileLen headLimit tailLimit a b stop)
    (htext : ElidedText (encode cs) last a b stop bytes) (hlen : fileLen ≤ (encode cs).length)
    (hsafe : (encode cs).length ≤ maxSafeInteger)
    (h : assemble (stop - (encode bytes).length) bytes sessionId provider now = some frame) :
    Elided (encode cs) last a b stop frame ∧ frame.offset + frame.byteLen = stop := by
  obtain ⟨hoffset, hbytes, hbyteLen⟩ := assemble_some h
  have hsize := hcut.length_eq htext hlen
  have hstop := hcut.greatest.1.2
  have hhead := hcut.head
  have hgap := hcut.gap
  have htail := hcut.tail
  have hmarker := length_marker_le (n := b - a) (by omega)
  refine ⟨⟨hhead.1, by omega, htail.1, ?_, by omega⟩, by omega⟩
  rw [hbytes]
  exact htext

/-- What a frame for the bytes from `last` on ships when `fileLen` bytes were observed: all there is up to the last
boundary `stop`. -/
structure Ships (cs : List Char) (last fileLen stop : Nat) (frame : Frame) : Prop where
  greatest : IsGreatest {b | Boundary cs b ∧ b ≤ fileLen} stop
  ends : frame.offset + frame.byteLen = stop
  grows : last < stop
  whole : fileLen - last ≤ deltaSoftCap → Whole (encode cs) last stop frame
  elided : deltaSoftCap < fileLen - last → ∃ a b, Elided (encode cs) last a b stop frame

/-- **What `buildDeltaFrame` builds.** -/
theorem buildDeltaFrame_spec (hlast : Boundary cs last) (hlt : last < fileLen)
    (hlen : fileLen ≤ (encode cs).length) (hsafe : (encode cs).length ≤ maxSafeInteger)
    (hpresent : fileLen ≤ present)
    (h : buildDeltaFrame (some ((encode cs).take present)) last fileLen sessionId provider now =
      some frame) : ∃ stop, Ships cs last fileLen stop frame := by
  by_cases hspan : fileLen - last ≤ deltaSoftCap
  · unfold buildDeltaFrame at h
    simp only [hspan, if_true] at h
    rw [readAt_take (by omega)] at h
    have hstop := trimEnd_readAt (.inl hlast) hlt hlen
    split at h
    · cases h
    · rename_i hne
      have hle : trimEndToUtf8Boundary (readAt (encode cs) last (fileLen - last)) ≤ fileLen - last := by
        have := hstop.1.2
        omega
      obtain ⟨hoffset, hbytes, hbyteLen⟩ := assemble_some h
      generalize trimEndToUtf8Boundary (readAt (encode cs) last (fileLen - last)) = e at *
      have htext := readAt_text hlast hstop.1.1 (Nat.le_add_right _ _)
      rw [Nat.add_sub_cancel_left] at htext
      rw [take_readAt hle] at hbytes hbyteLen
      rw [htext, length_readAt (by omega)] at hbyteLen
      refine ⟨last + e, hstop, by omega, by omega, fun _ => ⟨hoffset, ?_⟩, fun hover => absurd hspan (by omega)⟩
      rw [hbytes, htext, Nat.add_sub_cancel_left]
  · have hbuilt : ∃ headLimit tailLimit, 0 < headLimit ∧ 4 ≤ tailLimit ∧
        headLimit + tailLimit ≤ headBytes + tailBytes ∧
        buildElidedFrame ((encode cs).take present) last fileLen sessionId provider now headLimit
          tailLimit = some frame := by
      unfold buildDeltaFrame at h
      simp only [hspan, if_false] at h
      split at h
      · rename_i frame' hframe
        exact ⟨headBytes, tailBytes, by decide, by decide, Nat.le_refl _, hframe.trans h⟩
      · exact ⟨headBytes / 2, tailBytes / 2, by decide, by decide, by decide, h⟩
    obtain ⟨headLimit, tailLimit, hhead, htail, hlimits, hframe⟩ := hbuilt
    have hcap : headBytes + tailBytes + 210 ≤ deltaSoftCap := by decide
    obtain ⟨a, b, stop, bytes, hcut, htext, heq⟩ := buildElidedFrame_eq now sessionId provider hlast hlen
      hpresent hhead htail (by omega)
    rw [heq] at hframe
    obtain ⟨helided, hends⟩ := hcut.elided htext hlen hsafe hframe
    have hgrows : last < stop := helided.head.trans_lt (helided.gap.trans_le helided.tail)
    exact ⟨stop, hcut.greatest, hends, hgrows, fun hle => absurd hle hspan, fun _ => ⟨a, b, helided⟩⟩

end Build

/-- **What one process does**: nothing, or it sends a frame and keeps its end if that was taken. -/
theorem maybeSendDelta_spec {cs : List Char} (sessionId : List Char) {stored : Option Int} {p : Spawn}
    (hlast : Boundary cs (readOffset stored)) (hsafe : (encode cs).length ≤ maxSafeInteger)
    (hp : ∀ n ∈ p.observed, readOffset stored ≤ n ∧ n ≤ p.present ∧ n ≤ (encode cs).length) :
    ((maybeSendDelta (encode cs) sessionId stored p).1 = stored ∧
      ∀ frame ok, (maybeSendDelta (encode cs) sessionId stored p).2 ≠ .attempted frame ok) ∨
    ∃ fileLen stop frame, p.observed = some fileLen ∧ Ships cs (readOffset stored) fileLen stop frame ∧
      maybeSendDelta (encode cs) sessionId stored p =
        (if p.sendOk ∧ p.writeOk then some (stop : Int) else stored, .attempted frame p.sendOk) := by
  unfold maybeSendDelta
  cases hobs : p.observed with
  | none => exact .inl ⟨rfl, fun _ _ h => by cases h⟩
  | some fileLen =>
    obtain ⟨hle, hpresent, hlen⟩ := hp fileLen hobs
    simp only
    rw [if_neg (by omega)]
    by_cases hsame : fileLen = readOffset stored
    · rw [if_pos hsame]
      exact .inl ⟨rfl, fun _ _ h => by cases h⟩
    · rw [if_neg hsame]
      cases hread : p.readable with
      | false => exact .inl ⟨rfl, fun _ _ h => by cases h⟩
      | true =>
        simp only [if_true]
        cases hframe : buildDeltaFrame (some ((encode cs).take p.present)) (readOffset stored) fileLen
            sessionId p.provider p.now with
        | none => exact .inl ⟨rfl, fun _ _ h => by cases h⟩
        | some frame =>
          obtain ⟨stop, hships⟩ := buildDeltaFrame_spec hlast (by omega) hlen hsafe hpresent hframe
          refine .inr ⟨fileLen, stop, frame, rfl, hships, ?_⟩
          unfold writeOffset
          simp only
          rw [hships.ends]
          cases p.sendOk <;> simp

/-! ## Runs -/

/-- A transcript as it is in the end. -/
structure Transcript where
  text : List Char
  size_le : (encode text).length ≤ maxSafeInteger

/-- A frame that was taken, with the span it was built for. -/
structure Shipment where
  last : Nat
  fileLen : Nat
  frame : Frame

/-- The offset in the state file, and what has been taken so far. -/
structure Sender where
  stored : Option Int
  sent : List Shipment

/-- The offset a process reads. -/
def Sender.last (st : Sender) : Nat := readOffset st.stored

/-- One process. -/
def Sender.spawn (file : Transcript) (sessionId : List Char) (st : Sender) (p : Spawn) : Sender :=
  let r := maybeSendDelta (encode file.text) sessionId st.stored p
  match r.2 with
  | .attempted frame true => ⟨r.1, st.sent ++ [⟨st.last, p.observed.getD 0, frame⟩]⟩
  | _ => ⟨r.1, st.sent⟩

/-- One process after the other. -/
def run (file : Transcript) (sessionId : List Char) (stored : Option Int) (spawns : List Spawn) : Sender :=
  spawns.foldl (Sender.spawn file sessionId) ⟨stored, []⟩

/-- The lengths that are observed do not decrease, and the file is at least as long when it is read. -/
def Grows (file : Transcript) (spawns : List Spawn) : Prop :=
  (spawns.filterMap Spawn.observed).Pairwise (· ≤ ·) ∧
    ∀ p ∈ spawns, ∀ n ∈ p.observed, n ≤ p.present ∧ n ≤ (encode file.text).length

/-- The byte at `x` was shipped. -/
def Shipped (file : Transcript) (x : Nat) (w : Shipment) : Prop :=
  ∃ stop : Nat, w.frame.offset + w.frame.byteLen = stop ∧
    ((Whole (encode file.text) w.last stop w.frame ∧ w.last ≤ x ∧ x < stop) ∨
      ∃ a b, Elided (encode file.text) w.last a b stop w.frame ∧ (w.last ≤ x ∧ x < a ∨ b ≤ x ∧ x < stop))

/-- The byte at `x` is one of those a marker counts. -/
def InGap (file : Transcript) (x : Nat) (w : Shipment) : Prop :=
  ∃ a b stop : Nat, w.frame.offset + w.frame.byteLen = stop ∧
    Elided (encode file.text) w.last a b stop w.frame ∧ a ≤ x ∧ x < b

/-- What a process owes. -/
structure SafeSpawn (file : Transcript) (sessionId : List Char) (before after : Sender) (p : Spawn) : Prop where
  boundary : Boundary file.text after.last
  le_observed : ∀ n ∈ p.observed, after.last ≤ n
  grows : before.last ≤ after.last
  changes : after.stored ≠ before.stored →
    ∃ frame, (maybeSendDelta (encode file.text) sessionId before.stored p).2 = .attempted frame true
  ships : ∀ frame ok, (maybeSendDelta (encode file.text) sessionId before.stored p).2 = .attempted frame ok →
    ∃ fileLen ∈ p.observed, ∃ stop, Ships file.text before.last fileLen stop frame ∧
      (after.stored ≠ before.stored → after.last = stop)
  accounted : ∀ x < after.last, ∃ w ∈ after.sent, Shipped file x w ∨ InGap file x w

theorem readOffset_of_le {n : Nat} (h : n ≤ maxSafeInteger) : readOffset (some (n : Int)) = n := by
  unfold readOffset
  simp only
  rw [if_pos ⟨Int.natCast_nonneg n, by omega⟩, Int.toNat_natCast]

theorem Sender.spawn_of_not_attempted {file : Transcript} {sessionId : List Char} {st : Sender} {p : Spawn}
    (h : (maybeSendDelta (encode file.text) sessionId st.stored p).1 = st.stored)
    (hno : ∀ frame ok, (maybeSendDelta (encode file.text) sessionId st.stored p).2 ≠ .attempted frame ok) :
    st.spawn file sessionId p = st := by
  unfold Sender.spawn
  simp only
  split
  · rename_i frame hframe
    exact absurd hframe (hno frame true)
  · rw [h]

/-- A frame that is sent covers what was not shipped before. -/
theorem Ships.accounted {file : Transcript} {last fileLen stop x : Nat} {frame : Frame}
    (h : Ships file.text last fileLen stop frame) (hle : last ≤ x) (hlt : x < stop) :
    Shipped file x ⟨last, fileLen, frame⟩ ∨ InGap file x ⟨last, fileLen, frame⟩ := by
  by_cases hspan : fileLen - last ≤ deltaSoftCap
  · exact .inl ⟨stop, h.ends, .inl ⟨h.whole hspan, hle, hlt⟩⟩
  · obtain ⟨a, b, helided⟩ := h.elided (not_le.mp hspan)
    by_cases ha : x < a
    · exact .inl ⟨stop, h.ends, .inr ⟨a, b, helided, .inl ⟨hle, ha⟩⟩⟩
    · by_cases hb : x < b
      · exact .inr ⟨a, b, stop, h.ends, helided, not_lt.mp ha, hb⟩
      · exact .inl ⟨stop, h.ends, .inr ⟨a, b, helided, .inr ⟨not_lt.mp hb, hlt⟩⟩⟩

/-- What holds after some processes. -/
structure Sender.Inv (file : Transcript) (spawns : List Spawn) (st : Sender) : Prop where
  boundary : Boundary file.text st.last
  le : ∀ n, (∀ m ∈ spawns.filterMap Spawn.observed, m ≤ n) → st.last ≤ n
  accounted : ∀ x < st.last, ∃ w ∈ st.sent, Shipped file x w ∨ InGap file x w

/-- What is left of a process that sends a frame. -/
structure Attempt (file : Transcript) (sessionId : List Char) (st : Sender) (p : Spawn) (fileLen stop : Nat)
    (frame : Frame) : Prop where
  observed : p.observed = some fileLen
  ships : Ships file.text st.last fileLen stop frame
  result : maybeSendDelta (encode file.text) sessionId st.stored p =
    (if p.sendOk ∧ p.writeOk then some (stop : Int) else st.stored, .attempted frame p.sendOk)

namespace Attempt

variable {file : Transcript} {sessionId : List Char} {spawns : List Spawn} {st : Sender} {p : Spawn}
  {fileLen stop : Nat} {frame : Frame} (h : Attempt file sessionId st p fileLen stop frame)
include h

theorem spawn_eq : st.spawn file sessionId p =
    ⟨if p.sendOk ∧ p.writeOk then some (stop : Int) else st.stored,
      if p.sendOk then st.sent ++ [⟨st.last, fileLen, frame⟩] else st.sent⟩ := by
  unfold Sender.spawn
  rw [h.result, h.observed]
  cases p.sendOk <;> rfl

/-- What was accounted for still is. -/
theorem keeps (hst : st.Inv file spawns) : ∀ x < st.last,
    ∃ w ∈ (st.spawn file sessionId p).sent, Shipped file x w ∨ InGap file x w := by
  intro x hx
  obtain ⟨w, hw, hx⟩ := hst.accounted x hx
  refine ⟨w, ?_, hx⟩
  rw [h.spawn_eq]
  simp only
  split
  · exact List.mem_append_left _ hw
  · exact hw

/-- It is this frame that was sent. -/
theorem frame_eq {frame' : Frame} {ok : Bool}
    (h' : (maybeSendDelta (encode file.text) sessionId st.stored p).2 = .attempted frame' ok) : frame = frame' := by
  rw [h.result] at h'
  exact (DeltaOutcome.attempted.inj h').1

/-- The frame is taken and its end is the new offset. -/
theorem taken (hst : st.Inv file spawns) (hok : p.sendOk ∧ p.writeOk) :
    (st.spawn file sessionId p).Inv file (spawns ++ [p]) ∧
      SafeSpawn file sessionId st (st.spawn file sessionId p) p := by
  have hnew : (st.spawn file sessionId p).last = stop := by
    unfold Sender.last
    rw [h.spawn_eq]
    simp only
    rw [if_pos hok, readOffset_of_le (h.ships.greatest.1.1.le.trans file.size_le)]
  have hmem : ⟨st.last, fileLen, frame⟩ ∈ (st.spawn file sessionId p).sent := by
    rw [h.spawn_eq]
    simp only [hok.1, if_true]
    exact List.mem_append_right _ List.mem_cons_self
  have hboundary : Boundary file.text (st.spawn file sessionId p).last := hnew ▸ h.ships.greatest.1.1
  have haccounted : ∀ x < (st.spawn file sessionId p).last,
      ∃ w ∈ (st.spawn file sessionId p).sent, Shipped file x w ∨ InGap file x w := fun x hx => by
    by_cases hold : x < st.last
    · exact h.keeps hst x hold
    · exact ⟨_, hmem, h.ships.accounted (not_lt.mp hold) (hnew ▸ hx)⟩
  refine ⟨⟨hboundary, fun n hn => ?_, haccounted⟩, hboundary, fun n hn => ?_, ?_, fun _ => ⟨frame, ?_⟩,
    fun frame' ok h' => ⟨fileLen, h.observed, stop, h.frame_eq h' ▸ h.ships, fun _ => hnew⟩, haccounted⟩
  · rw [hnew]
    exact h.ships.greatest.1.2.trans (hn fileLen (by simp [h.observed]))
  · obtain rfl : fileLen = n := Option.some.inj (h.observed.symm.trans hn)
    rw [hnew]
    exact h.ships.greatest.1.2
  · rw [hnew]
    exact h.ships.grows.le
  · rw [h.result, hok.1]

/-- The offset stays. -/
theorem stays (hst : st.Inv file spawns)
    (hle : ∀ n, (∀ m ∈ (spawns ++ [p]).filterMap Spawn.observed, m ≤ n) → st.last ≤ n)
    (hlast : ∀ n ∈ p.observed, st.last ≤ n) (hno : ¬ (p.sendOk ∧ p.writeOk)) :
    (st.spawn file sessionId p).Inv file (spawns ++ [p]) ∧
      SafeSpawn file sessionId st (st.spawn file sessionId p) p := by
  have hstored : (st.spawn file sessionId p).stored = st.stored := by
    rw [h.spawn_eq]
    exact if_neg hno
  have hnew : (st.spawn file sessionId p).last = st.last := congrArg readOffset hstored
  have hkeep := h.keeps hst
  rw [← hnew] at hkeep
  exact ⟨⟨hnew ▸ hst.boundary, fun n hn => hnew ▸ hle n hn, hkeep⟩, hnew ▸ hst.boundary,
    fun n hn => hnew ▸ hlast n hn, hnew.ge, fun h' => absurd hstored h',
    fun frame' ok h' => ⟨fileLen, h.observed, stop, h.frame_eq h' ▸ h.ships, fun h' => absurd hstored h'⟩, hkeep⟩

end Attempt

/-- **A process keeps the invariant and does what it owes.** -/
theorem Sender.Inv.spawn {file : Transcript} {sessionId : List Char} {spawns : List Spawn} {st : Sender}
    {p : Spawn} (hst : st.Inv file spawns) (hgrows : Grows file (spawns ++ [p])) :
    (st.spawn file sessionId p).Inv file (spawns ++ [p]) ∧
      SafeSpawn file sessionId st (st.spawn file sessionId p) p := by
  obtain ⟨hsorted, hbounds⟩ := hgrows
  rw [List.filterMap_append, List.pairwise_append] at hsorted
  have hlast : ∀ n ∈ p.observed, st.last ≤ n := fun n hn =>
    hst.le n fun m hm => hsorted.2.2 m hm n (by simp [Option.mem_def.mp hn])
  have hle : ∀ n, (∀ m ∈ (spawns ++ [p]).filterMap Spawn.observed, m ≤ n) → st.last ≤ n := fun n hn =>
    hst.le n fun m hm => hn m (by rw [List.filterMap_append]; exact List.mem_append_left _ hm)
  rcases maybeSendDelta_spec sessionId hst.boundary file.size_le
    (fun n hn => ⟨hlast n hn, hbounds p (by simp) n hn⟩) with ⟨hstored, hno⟩ | ⟨fileLen, stop, frame, hobs, hships, hr⟩
  · -- nothing is sent
    rw [st.spawn_of_not_attempted hstored hno]
    exact ⟨⟨hst.boundary, hle, hst.accounted⟩, hst.boundary, hlast, Nat.le_refl _, fun h => absurd rfl h,
      fun frame ok h => absurd h (hno frame ok), hst.accounted⟩
  · have hattempt : Attempt file sessionId st p fileLen stop frame := ⟨hobs, hships, hr⟩
    by_cases hok : p.sendOk ∧ p.writeOk
    · exact hattempt.taken hst hok
    · exact hattempt.stays hst hle hlast hok

theorem Grows.of_append {file : Transcript} {spawns spawns' : List Spawn} (h : Grows file (spawns ++ spawns')) :
    Grows file spawns := by
  obtain ⟨hsorted, hbounds⟩ := h
  rw [List.filterMap_append, List.pairwise_append] at hsorted
  exact ⟨hsorted.1, fun p hp => hbounds p (List.mem_append_left _ hp)⟩

theorem run_concat (file : Transcript) (sessionId : List Char) (stored : Option Int) (spawns : List Spawn)
    (p : Spawn) : run file sessionId stored (spawns ++ [p]) =
      (run file sessionId stored spawns).spawn file sessionId p := List.foldl_concat _ _ _ _

theorem run_inv {file : Transcript} {sessionId : List Char} {stored : Option Int}
    (h : readOffset stored = 0) {spawns : List Spawn} (hgrows : Grows file spawns) :
    (run file sessionId stored spawns).Inv file spawns := by
  induction spawns using List.reverseRecOn with
  | nil =>
    have hlast : (run file sessionId stored []).last = 0 := h
    exact ⟨hlast ▸ boundary_zero _, fun n _ => hlast ▸ Nat.zero_le n, fun x hx => by
      rw [hlast] at hx
      cases hx⟩
  | append_singleton spawns p ih =>
    rw [run_concat]
    exact ((ih hgrows.of_append).spawn hgrows).1

/-- **In every run, each process does what it owes.** -/
theorem delta_safe (file : Transcript) (sessionId : List Char) (stored : Option Int) (spawns : List Spawn)
    (p : Spawn) (h : readOffset stored = 0) (hgrows : Grows file (spawns ++ [p])) :
    SafeSpawn file sessionId (run file sessionId stored spawns)
      (run file sessionId stored (spawns ++ [p])) p := by
  rw [run_concat]
  exact ((run_inv h hgrows.of_append).spawn hgrows).2

/-- An accented letter, observed when half of it was written, and then whole. -/
def accented : Transcript := ⟨['a', '\u00e9'], by decide +kernel⟩

/-- The first process ships one byte, the second the other two. -/
theorem delta_safe_accented :
    SafeSpawn accented ['s'] (run accented ['s'] none [⟨some 2, 2, true, none, 7, true, true⟩])
        (run accented ['s'] none ([⟨some 2, 2, true, none, 7, true, true⟩] ++
          [⟨some 3, 3, true, none, 8, true, true⟩])) ⟨some 3, 3, true, none, 8, true, true⟩ ∧
      (run accented ['s'] none [⟨some 2, 2, true, none, 7, true, true⟩]).last = 1 ∧
      (run accented ['s'] none ([⟨some 2, 2, true, none, 7, true, true⟩] ++
          [⟨some 3, 3, true, none, 8, true, true⟩])).last = 3 := by
  refine ⟨delta_safe accented ['s'] none [⟨some 2, 2, true, none, 7, true, true⟩]
    ⟨some 3, 3, true, none, 8, true, true⟩ rfl ⟨by decide +kernel, ?_⟩, by decide +kernel, by decide +kernel⟩
  decide +kernel

end Unimatrix.Delta
