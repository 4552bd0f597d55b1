import Unimatrix.Hook.Delta
import Unimatrix.Lib.Lossy
import Unimatrix.Lib.Runs

/-!
# The transcript sender on any bytes

`maybeSendDelta` where the transcript is no text in UTF-8: between two calls it may be cut or written anew, and it holds
any bytes. A `Visit` is what a call finds and what becomes of it.

A span is sent as the text it is read as, and the offset goes on by the length of that text. Each sequence that is none
of UTF-8 is read as a character of three bytes, so the text may be longer than the span. `Room` says when it is not: when
these sequences lack of three bytes each no more than `trimEndToUtf8Boundary` has left out.

**`bounded_iff`**: exactly in the runs that always have room, no offset that is written and no frame without a marker
goes beyond the file. A frame with a marker ends within it whatever its bytes are (`buildElidedFrame_end`).
-/

namespace Unimatrix.Delta

open Utf8

/-- What a call finds and what becomes of what it asks for; `file` is `none` where `stat` throws. -/
structure Visit where
  file : Option (List UInt8)
  readable : Bool
  provider : Option (List Char)
  now : Nat
  sendOk : Bool
  writeOk : Bool

namespace Visit

/-- The bytes that are there. -/
def bytes (v : Visit) : List UInt8 := v.file.getD []

/-- The process: it observes the length of the file that it reads. -/
def spawn (v : Visit) : Spawn :=
  ⟨v.file.map List.length, v.bytes.length, v.readable, v.provider, v.now, v.sendOk, v.writeOk⟩

/-- The call, where `stored` is the offset. -/
def send (v : Visit) (sessionId : List Char) (stored : Option Int) : Option Int × DeltaOutcome :=
  maybeSendDelta v.bytes sessionId stored v.spawn

end Visit

/-- The offset after a call. -/
def persist (sessionId : List Char) (stored : Option Int) (v : Visit) : Option Int := (v.send sessionId stored).1

/-- A frame for the bytes from `last` on leaves some out and has a marker. -/
def Elides (file : List UInt8) (last : Nat) : Prop := deltaSoftCap < file.length - last

/-- The bytes of the span from `last` on that are sent. -/
def keptSpan (file : List UInt8) (last : Nat) : List UInt8 :=
  let raw := readAt file last (file.length - last)
  raw.take (trimEndToUtf8Boundary raw)

/-- What a call owes: an offset that it writes, and the end of a frame without a marker, lie within the file. -/
structure Bounded (sessionId : List Char) (stored : Option Int) (v : Visit) : Prop where
  persists : ∀ file ∈ v.file, (v.send sessionId stored).1 = stored ∨
    ∃ offset : Int, (v.send sessionId stored).1 = some offset ∧ offset ≤ file.length
  frames : ∀ file ∈ v.file, ∀ frame ok, (v.send sessionId stored).2 = .attempted frame ok →
    Elides file (readOffset stored) ∨ frame.offset + frame.byteLen ≤ file.length

/-- A span that is sent whole: what its replaced sequences lack of three bytes each is no more than what was left out
at its end. -/
def Room (sessionId : List Char) (stored : Option Int) (v : Visit) : Prop :=
  ∀ file ∈ v.file, v.readable → readOffset stored < file.length → ¬ Elides file (readOffset stored) →
    (encode (frameText (readOffset stored) (decode (keptSpan file (readOffset stored))) sessionId v.provider
      v.now)).length ≤ bodyGuard →
    shortfall (keptSpan file (readOffset stored)) ≤
      file.length - readOffset stored - (keptSpan file (readOffset stored)).length

/-! ## Where frames end -/

theorem backOff_le (buf : List UInt8) (i : Nat) : backOff buf i ≤ i := by
  induction i with
  | zero => exact Nat.le_refl 0
  | succ i ih =>
    unfold backOff
    split
    · exact Nat.le_succ_of_le ih
    · exact Nat.le_refl _

theorem trimEnd_le (buf : List UInt8) : trimEndToUtf8Boundary buf ≤ buf.length := by
  have hle := backOff_le buf buf.length
  unfold trimEndToUtf8Boundary
  split
  · exact Nat.zero_le _
  · rename_i i hi
    split
    · exact Nat.le_refl _
    split
    · exact Nat.le_refl _
    · omega

theorem length_keptSpan_le (file : List UInt8) (last : Nat) : (keptSpan file last).length ≤ file.length - last := by
  unfold keptSpan readAt
  simp only [List.length_take, List.length_drop]
  omega

section Frames

variable {file : List UInt8} {last : Nat} {sessionId : List Char} {provider : Option (List Char)} {now : Nat}
  {frame : Frame}

/-- **An elided frame ends within the file.** -/
theorem buildElidedFrame_end {headLimit tailLimit : Nat} (htail : tailLimit ≤ file.length)
    (h : buildElidedFrame file last file.length sessionId provider now headLimit tailLimit = some frame) :
    frame.offset + frame.byteLen ≤ file.length := by
  unfold buildElidedFrame at h
  obtain ⟨hoffset, -, hbyteLen⟩ := assemble_some h
  have htrim := trimEnd_le (readAt file (file.length - tailLimit) tailLimit)
  rw [length_readAt (by omega)] at htrim
  rw [hoffset, hbyteLen]
  omega

/-- It has a marker. -/
theorem buildElidedFrame_marker {headLimit tailLimit : Nat}
    (h : buildElidedFrame file last file.length sessionId provider now headLimit tailLimit = some frame) :
    ∃ n, marker n <:+: frame.bytes := by
  unfold buildElidedFrame at h
  obtain ⟨-, hbytes, -⟩ := assemble_some h
  rw [hbytes]
  exact ⟨_, _, _, rfl⟩

/-- A frame beyond the cap is an elided one. -/
theorem buildDeltaFrame_elides (helides : Elides file last)
    (h : buildDeltaFrame (some file) last file.length sessionId provider now = some frame) :
    frame.offset + frame.byteLen ≤ file.length ∧ ∃ n, marker n <:+: frame.bytes := by
  have hlong : tailBytes ≤ file.length := by
    unfold Elides deltaSoftCap at helides
    unfold tailBytes
    omega
  unfold buildDeltaFrame at h
  simp only [not_le.mpr helides, if_false] at h
  split at h
  · rename_i frame' hframe
    obtain rfl := Option.some.inj h
    exact ⟨buildElidedFrame_end hlong hframe, buildElidedFrame_marker hframe⟩
  · exact ⟨buildElidedFrame_end (by omega) h, buildElidedFrame_marker h⟩

/-- A frame within the cap has what was kept of the span, and is as long as the text that this is read as. -/
theorem buildDeltaFrame_whole (hwhole : ¬ Elides file last) :
    buildDeltaFrame (some file) last file.length sessionId provider now =
      if keptSpan file last = [] then none
      else assemble last (decode (keptSpan file last)) sessionId provider now := by
  have hread : (readAt file last (file.length - last)).length = file.length - last := by
    unfold readAt
    rw [List.length_take, List.length_drop, Nat.min_self]
  have htrim := trimEnd_le (readAt file last (file.length - last))
  have hempty : keptSpan file last = [] ↔ trimEndToUtf8Boundary (readAt file last (file.length - last)) = 0 := by
    unfold keptSpan
    rw [← List.length_eq_zero_iff, List.length_take, Nat.min_eq_left htrim]
  unfold buildDeltaFrame
  simp only [not_lt.mp hwhole, if_true, hempty]
  rfl

theorem assemble_eq_some {offset : Int} {bytes : List Char}
    (h : (encode (frameText offset bytes sessionId provider now)).length ≤ bodyGuard) :
    ∃ frame, assemble offset bytes sessionId provider now = some frame := by
  unfold assemble
  simp only
  rw [if_neg (not_lt.mpr h)]
  exact ⟨_, rfl⟩

theorem guard_of_assemble {offset : Int} {bytes : List Char}
    (h : assemble offset bytes sessionId provider now = some frame) :
    (encode (frameText offset bytes sessionId provider now)).length ≤ bodyGuard := by
  unfold assemble at h
  simp only at h
  split at h
  · cases h
  · rename_i hguard
    exact not_lt.mp hguard

/-- Where such a frame ends. -/
theorem whole_end (h : assemble last (decode (keptSpan file last)) sessionId provider now = some frame) :
    frame.offset + frame.byteLen =
      ((last + (keptSpan file last).length + shortfall (keptSpan file last) : Nat) : Int) := by
  obtain ⟨hoffset, -, hbyteLen⟩ := assemble_some h
  rw [hoffset, hbyteLen, length_encode_decode]
  omega

end Frames

/-! ## One call -/

section Call

variable {sessionId : List Char} {stored : Option Int} {v : Visit} {file : List UInt8}

/-- What becomes of a frame. -/
def Posts (sessionId : List Char) (stored : Option Int) (v : Visit) (frame : Frame) : Prop :=
  v.send sessionId stored = if v.sendOk then
      (writeOffset stored v.writeOk (frame.offset + frame.byteLen), .attempted frame true)
    else (stored, .attempted frame false)

theorem bytes_eq (hfile : v.file = some file) : v.bytes = file := by
  unfold Visit.bytes
  rw [hfile, Option.getD_some]

/-- It posts the frame that is built for the bytes from its offset on. -/
theorem send_frame (hfile : v.file = some file) (hreadable : v.readable) (hlt : readOffset stored < file.length)
    {frame : Frame} (hbuilt : buildDeltaFrame (some file) (readOffset stored) file.length sessionId v.provider v.now =
      some frame) : Posts sessionId stored v frame := by
  have hne : file.length ≠ readOffset stored := by omega
  unfold Posts Visit.send maybeSendDelta Visit.spawn
  simp only [hfile, bytes_eq hfile, hreadable, Option.map_some, List.take_length, if_true, hbuilt, hne,
    not_lt.mpr hlt.le, if_false]

/-- What is written is the end of the frame, or the length of a file that has become shorter. -/
theorem send_cases (sessionId : List Char) (stored : Option Int) (hfile : v.file = some file) :
    v.send sessionId stored = (writeOffset stored v.writeOk file.length, .rewind) ∨
      ((v.send sessionId stored).1 = stored ∧ ∀ frame ok, (v.send sessionId stored).2 ≠ .attempted frame ok) ∨
      ∃ frame, readOffset stored < file.length ∧ v.readable ∧
        buildDeltaFrame (some file) (readOffset stored) file.length sessionId v.provider v.now = some frame ∧
        Posts sessionId stored v frame := by
  by_cases hrewind : file.length < readOffset stored
  · left
    unfold Visit.send maybeSendDelta Visit.spawn
    simp only [hfile, Option.map_some, hrewind, if_true]
  right
  by_cases hsame : file.length = readOffset stored
  · left
    unfold Visit.send maybeSendDelta Visit.spawn
    simp only [hfile, Option.map_some, hsame, lt_irrefl, if_true, if_false]
    exact ⟨trivial, fun frame ok h => by cases h⟩
  cases hbuilt : buildDeltaFrame (if v.readable then some file else none) (readOffset stored) file.length sessionId
      v.provider v.now with
  | none =>
    left
    unfold Visit.send maybeSendDelta Visit.spawn
    simp only [hfile, bytes_eq hfile, Option.map_some, List.take_length, hrewind, hsame, hbuilt, if_false]
    exact ⟨trivial, fun frame ok h => by cases h⟩
  | some frame =>
    right
    cases hreadable : v.readable with
    | false =>
      rw [hreadable] at hbuilt
      cases hbuilt
    | true =>
      rw [hreadable, if_pos rfl] at hbuilt
      exact ⟨frame, by omega, rfl, hbuilt, send_frame hfile hreadable (by omega) hbuilt⟩

theorem writeOffset_cases (ok : Bool) {offset : Int} {n : Nat} (h : offset ≤ n) :
    writeOffset stored ok offset = stored ∨ ∃ o : Int, writeOffset stored ok offset = some o ∧ o ≤ n := by
  unfold writeOffset
  split
  · exact .inr ⟨offset, rfl, h⟩
  · exact .inl rfl

/-- A call that sends a frame owes that it ends within the file. -/
theorem bounded_of_frame (hfile : v.file = some file) {frame : Frame}
    (hend : frame.offset + frame.byteLen ≤ file.length)
    (hsend : Posts sessionId stored v frame) : Bounded sessionId stored v := by
  unfold Posts at hsend
  refine ⟨fun file' hfile' => ?_, fun file' hfile' frame' ok h => ?_⟩
  · obtain rfl := Option.some.inj (hfile.symm.trans hfile')
    rw [hsend]
    split
    · exact writeOffset_cases v.writeOk hend
    · exact .inl rfl
  · obtain rfl := Option.some.inj (hfile.symm.trans hfile')
    rw [hsend] at h
    split at h
    · obtain ⟨rfl, -⟩ := DeltaOutcome.attempted.inj h
      exact .inr hend
    · obtain ⟨rfl, -⟩ := DeltaOutcome.attempted.inj h
      exact .inr hend

/-- **A call that has room stays within the file.** -/
theorem Room.bounded (h : Room sessionId stored v) : Bounded sessionId stored v := by
  cases hfile : v.file with
  | none =>
    have hno : ∀ file, file ∉ v.file := fun file hmem => by
      rw [hfile] at hmem
      cases hmem
    exact ⟨fun file hmem => absurd hmem (hno file), fun file hmem => absurd hmem (hno file)⟩
  | some file =>
    rcases send_cases sessionId stored hfile with hsend | ⟨hstored, hno⟩ | ⟨frame, hlt, hreadable, hbuilt, hsend⟩
    · -- the file has become shorter
      refine ⟨fun file' hfile' => ?_, fun file' _ frame ok h => ?_⟩
      · obtain rfl := Option.some.inj (hfile.symm.trans hfile')
        rw [hsend]
        exact writeOffset_cases v.writeOk le_rfl
      · rw [hsend] at h
        cases h
    · exact ⟨fun _ _ => .inl hstored, fun _ _ frame ok h => absurd h (hno frame ok)⟩
    · refine bounded_of_frame hfile ?_ hsend
      by_cases helides : Elides file (readOffset stored)
      · exact (buildDeltaFrame_elides helides hbuilt).1
      · rw [buildDeltaFrame_whole helides] at hbuilt
        split at hbuilt
        · cases hbuilt
        · have hroom := h file hfile hreadable hlt helides (guard_of_assemble hbuilt)
          have hkept := length_keptSpan_le file (readOffset stored)
          rw [whole_end hbuilt]
          omega

/-- A call that stays within the file had room. -/
theorem Bounded.room (h : Bounded sessionId stored v) : Room sessionId stored v := by
  intro file hfile hreadable hlt helides hguard
  by_cases hempty : keptSpan file (readOffset stored) = []
  · rw [hempty]
    exact Nat.zero_le _
  · obtain ⟨frame, hframe⟩ := assemble_eq_some hguard
    have hbuilt : buildDeltaFrame (some file) (readOffset stored) file.length sessionId v.provider v.now =
        some frame := by
      rw [buildDeltaFrame_whole helides, if_neg hempty]
      exact hframe
    have hsend := send_frame hfile hreadable hlt hbuilt
    have hattempted : ∃ ok, (v.send sessionId stored).2 = .attempted frame ok := by
      unfold Posts at hsend
      rw [hsend]
      cases v.sendOk with
      | true => exact ⟨true, rfl⟩
      | false => exact ⟨false, rfl⟩
    obtain ⟨ok, hok⟩ := hattempted
    have hend := (h.frames file hfile frame ok hok).resolve_left helides
    rw [whole_end hframe] at hend
    omega

end Call

/-! ## Runs -/

/-- **In a run every call stays within the file it finds exactly if every call has room.** -/
theorem bounded_iff (sessionId : List Char) (stored : Option Int) (visits : List Visit) :
    Runs.Throughout (persist sessionId) (Bounded sessionId) stored visits ↔
      Runs.Throughout (persist sessionId) (Room sessionId) stored visits :=
  Runs.throughout_congr (fun _ _ => ⟨Bounded.room, Room.bounded⟩) stored visits

/-- A file of one byte that is none of UTF-8. -/
def loneByte : Visit := ⟨some [0xFF], true, none, 7, true, true⟩

/-- The byte is sent as three, and the offset is 3 where the file has one byte. -/
theorem loneByte_beyond : ¬ Runs.Throughout (persist ['s']) (Bounded ['s']) none [loneByte] := by
  rintro ⟨h, -⟩
  have hwritten : (loneByte.send ['s'] none).1 = some 3 := by decide +kernel
  rcases h.persists [0xFF] rfl with hstored | ⟨offset, hoffset, hle⟩
  · rw [hwritten] at hstored
    cases hstored
  · rw [hwritten] at hoffset
    obtain rfl := Option.some.inj hoffset
    exact absurd hle (by decide)

end Unimatrix.Delta
