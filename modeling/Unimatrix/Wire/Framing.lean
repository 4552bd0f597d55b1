import Unimatrix.Hook.Delta
import Unimatrix.Lib.ByteStream
import Unimatrix.Lib.Json

/-!
# Frames on the wire

Model of `write_frame` and `read_frame` of `wire.rs`, and of `encodeFrame` and `armSyncPath` of `transport-uds.js`: a
frame is the length of its payload as four bytes, the most significant first, and the payload.

* A writer is what was written to it. What a reader holds comes in pieces (`Reader`), and ends where they do.
* A request is a JSON object; `stringify` is `JSON.stringify`.
* What the client makes of a body it has read (`parseResponse`) and what it reports where it reads none are
  parameters. A socket that was destroyed delivers nothing more.

**`wireFraming`**: frames are read back as they were written, a part of a frame is no frame, the two languages agree on
frames, and how the bytes of a reply are cut does not matter.
-/

namespace Unimatrix.Wire

open ByteStream Json

/-- `MAX_PAYLOAD_SIZE`. -/
def maxPayloadSize : Nat := 1048576

/-- `FRAME_HEADER_SIZE`. -/
def frameHeaderSize : Nat := 4

/-! ## The server -/

/-- `TransportError`, as far as frames meet with it. -/
inductive TransportError where
  | codec (msg : String)
  | transport (msg : String)
  deriving DecidableEq, Repr

/-- `write_frame`: what the writer holds after it. -/
def writeFrame (writer payload : List UInt8) : Except String (List UInt8) :=
  if maxPayloadSize < payload.length then
    .error ("payload size " ++ toString payload.length ++ " exceeds maximum " ++ toString maxPayloadSize)
  else .ok (writer ++ beBytes (payload.length % 0x100000000) ++ payload)

/-- `read_frame`. -/
def readFrame (reader : Reader) (maxSize : Nat) : Except TransportError (List UInt8 × Reader) :=
  match reader.readExact frameHeaderSize with
  | none => .error (.transport "connection closed during header read")
  | some (header, reader) =>
    let length := ofBeBytes header
    if length = 0 then .error (.codec "empty payload")
    else if maxSize < length then
      .error (.codec ("payload size " ++ toString length ++ " exceeds maximum " ++ toString maxSize))
    else
      match reader.readExact length with
      | none => .error (.transport "connection closed during payload read")
      | some (buffer, reader) => .ok (buffer, reader)

/-- One frame after the other. -/
def writeFrames (writer : List UInt8) : List (List UInt8) → Except String (List UInt8)
  | [] => .ok writer
  | payload :: payloads => do
    let writer ← writeFrame writer payload
    writeFrames writer payloads

/-- `n` frames, one after the other. -/
def readFrames (reader : Reader) : Nat → Except TransportError (List (List UInt8) × Reader)
  | 0 => .ok ([], reader)
  | n + 1 => do
    let (payload, reader) ← readFrame reader maxPayloadSize
    let (payloads, reader) ← readFrames reader n
    return (payload :: payloads, reader)

/-! ## The client -/

/-- The four hex digits of a code unit. -/
def hexDigits (u : Nat) : List Char :=
  [Nat.digitChar (u / 0x1000 % 16), Nat.digitChar (u / 0x100 % 16), Nat.digitChar (u / 0x10 % 16),
    Nat.digitChar (u % 16)]

/-- A code point of a JSON string: lone surrogates are escaped. -/
def escapeCodePoint : CodePoint → List Char
  | .scalar c => Delta.escapeChar c
  | .lone u => '\\' :: 'u' :: hexDigits u

/-- `JSON.stringify` of a string. -/
def stringifyText (s : Text) : List Char := '"' :: (s.flatMap escapeCodePoint ++ ['"'])

mutual

/-- `JSON.stringify`. -/
def stringify : Value → List Char
  | .null => "null".toList
  | .bool b => (toString b).toList
  | .number digits => digits
  | .string s => stringifyText s
  | .array items => '[' :: ([','].intercalate (stringifyItems items) ++ [']'])
  | .object fields => '{' :: ([','].intercalate (stringifyFields fields) ++ ['}'])

def stringifyItems : List Value → List (List Char)
  | [] => []
  | v :: vs => stringify v :: stringifyItems vs

def stringifyFields : List (Text × Value) → List (List Char)
  | [] => []
  | f :: fs => stringifyField f :: stringifyFields fs

def stringifyField : Text × Value → List Char
  | (name, v) => stringifyText name ++ ':' :: stringify v

end

/-- `SYNC_ACCEPT_TYPES`. -/
def syncAcceptTypes : List Text := [text "ContextSearch", text "CompactPayload"]

/-- The `payloadObj` of `encodeFrame`. -/
def payloadObj (frame : List (Text × Value)) (sync : Bool) : List (Text × Value) :=
  match (Value.object frame).get "type" with
  | some (.string type) =>
    if sync && syncAcceptTypes.contains type then setField frame (text "accept") (.string (text "text/plain"))
    else frame
  | _ => frame

/-- The bytes of a request. -/
def requestBytes (frame : List (Text × Value)) (sync : Bool) : List UInt8 :=
  Utf8.encode (stringify (.object (payloadObj frame sync)))

/-- `encodeFrame`: `none` for a request that is too long. -/
def encodeFrame (frame : List (Text × Value)) (sync : Bool) : Option (List UInt8) :=
  let json := requestBytes frame sync
  if maxPayloadSize < json.length then none else some (beBytes json.length ++ json)

/-- What a socket delivers. -/
inductive SocketEvent where
  | data (chunk : List UInt8)
  | ended

/-- The variables of `armSyncPath`, whether it destroyed the socket, and what its caller was told. -/
structure SyncPath (R : Type) where
  chunks : List (List UInt8)
  received : Nat
  declaredLen : Option Nat
  destroyed : Bool
  result : Option R

namespace SyncPath

variable {R : Type} (parseResponse : List UInt8 → R) (failConnect : R)

/-- Before anything was delivered. -/
def armed : SyncPath R := ⟨[], 0, none, false, none⟩

/-- `done`: only the first result counts. -/
def done (s : SyncPath R) (r : R) : SyncPath R := { s with result := s.result.or (some r) }

/-- The end of the `data` handler. -/
def deliver (s : SyncPath R) : SyncPath R :=
  match s.declaredLen with
  | none => s
  | some declaredLen =>
    if frameHeaderSize + declaredLen ≤ s.received then
      { s with destroyed := true }.done
        (parseResponse ((s.chunks.flatten.drop frameHeaderSize).take declaredLen))
    else s

/-- The `data` handler. -/
def onData (s : SyncPath R) (chunk : List UInt8) : SyncPath R :=
  let s := { s with chunks := s.chunks ++ [chunk], received := s.received + chunk.length }
  if s.declaredLen.isNone && decide (frameHeaderSize ≤ s.received) then
    let declaredLen := ofBeBytes (s.chunks.flatten.take frameHeaderSize)
    let s := { s with declaredLen := some declaredLen }
    if declaredLen = 0 ∨ maxPayloadSize < declaredLen then { s with destroyed := true }.done failConnect
    else s.deliver parseResponse
  else s.deliver parseResponse

/-- One event. -/
def step (s : SyncPath R) (e : SocketEvent) : SyncPath R :=
  if s.destroyed then s
  else
    match e with
    | .data chunk => s.onData parseResponse failConnect chunk
    | .ended => s.done failConnect

/-- What the caller is told, where the server sends these pieces and closes. -/
def reply (chunks : List (List UInt8)) : Option R :=
  ((chunks.map SocketEvent.data ++ [SocketEvent.ended]).foldl (step parseResponse failConnect) armed).result

end SyncPath

/-! ## Frames are read back -/

/-- A payload that a frame can carry. -/
def Sendable (payload : List UInt8) : Prop := payload ≠ [] ∧ payload.length ≤ maxPayloadSize

/-- The frame of a payload. -/
def frameOf (payload : List UInt8) : List UInt8 := beBytes payload.length ++ payload

theorem writeFrame_eq {payload : List UInt8} (h : payload.length ≤ maxPayloadSize) (writer : List UInt8) :
    writeFrame writer payload = .ok (writer ++ frameOf payload) := by
  unfold writeFrame frameOf
  have hmod : payload.length % 0x100000000 = payload.length :=
    Nat.mod_eq_of_lt (h.trans_lt (by decide))
  rw [if_neg (not_lt.mpr h), hmod, List.append_assoc]

theorem writeFrames_eq {payloads : List (List UInt8)} (h : ∀ p ∈ payloads, Sendable p) (writer : List UInt8) :
    writeFrames writer payloads = .ok (writer ++ (payloads.map frameOf).flatten) := by
  induction payloads generalizing writer with
  | nil => simp [writeFrames]
  | cons payload payloads ih =>
    obtain ⟨hp, hps⟩ := List.forall_mem_cons.mp h
    unfold writeFrames
    rw [writeFrame_eq hp.2]
    show writeFrames (writer ++ frameOf payload) payloads = _
    rw [ih hps]
    simp

/-- **A frame is read back**, whatever follows it. -/
theorem readFrame_frameOf {payload rest : List UInt8} {reader : Reader} {maxSize : Nat} (hp : Sendable payload)
    (hmax : payload.length ≤ maxSize) (hr : reader.contents = frameOf payload ++ rest) :
    ∃ reader', readFrame reader maxSize = .ok (payload, reader') ∧ reader'.contents = rest := by
  unfold frameOf at hr
  rw [List.append_assoc] at hr
  obtain ⟨r1, hheader, hr1⟩ := (reader.readExact_spec frameHeaderSize).2 _ _ hr (beBytes_length _)
  obtain ⟨r2, hbody, hr2⟩ := (r1.readExact_spec payload.length).2 payload rest hr1 rfl
  have hlength : ofBeBytes (beBytes payload.length) = payload.length :=
    ofBeBytes_beBytes (hp.2.trans_lt (by decide))
  have hne : payload.length ≠ 0 := fun h => hp.1 (List.length_eq_zero_iff.mp h)
  refine ⟨r2, ?_, hr2⟩
  unfold readFrame
  rw [hheader]
  dsimp only
  rw [hlength, if_neg hne, if_neg (not_lt.mpr hmax), hbody]

/-- **A part of a frame is no frame.** -/
theorem readFrame_short {payload part : List UInt8} {reader : Reader} {maxSize : Nat} (hp : Sendable payload)
    (hmax : payload.length ≤ maxSize) (hpart : part <+: frameOf payload) (hne : part ≠ frameOf payload)
    (hr : reader.contents = part) :
    readFrame reader maxSize = .error (.transport "connection closed during header read") ∨
      readFrame reader maxSize = .error (.transport "connection closed during payload read") := by
  have hlength : ofBeBytes (beBytes payload.length) = payload.length :=
    ofBeBytes_beBytes (hp.2.trans_lt (by decide))
  have hzero : payload.length ≠ 0 := fun h => hp.1 (List.length_eq_zero_iff.mp h)
  unfold readFrame
  by_cases hshort : part.length < frameHeaderSize
  · rw [(reader.readExact_spec frameHeaderSize).1 (by rwa [hr])]
    exact .inl rfl
  · -- the header is whole, so it is the payload that is cut
    obtain ⟨body, hbody⟩ : beBytes payload.length <+: part :=
      List.prefix_of_prefix_length_le (List.prefix_append _ _) hpart (not_lt.mp hshort)
    obtain ⟨r1, hheader, hr1⟩ :=
      (reader.readExact_spec frameHeaderSize).2 _ body (hr.trans hbody.symm) (beBytes_length _)
    have hlt : body.length < payload.length := by
      have hle := hpart.length_le
      have hlen : part.length ≠ (frameOf payload).length := fun h => hne (hpart.eq_of_length h)
      rw [← hbody] at hle hlen
      unfold frameOf at hle hlen
      simp only [List.length_append] at hle hlen
      omega
    right
    rw [hheader]
    dsimp only
    rw [hlength, if_neg hzero, if_neg (not_lt.mpr hmax), (r1.readExact_spec payload.length).1 (by rwa [hr1])]

/-- **Frames written one after the other are read one after the other.** -/
theorem readFrames_eq {payloads : List (List UInt8)} (h : ∀ p ∈ payloads, Sendable p) {rest : List UInt8}
    {reader : Reader} (hr : reader.contents = (payloads.map frameOf).flatten ++ rest) :
    ∃ reader', readFrames reader payloads.length = .ok (payloads, reader') ∧ reader'.contents = rest := by
  induction payloads generalizing reader with
  | nil => exact ⟨reader, rfl, hr⟩
  | cons payload payloads ih =>
    obtain ⟨hp, hps⟩ := List.forall_mem_cons.mp h
    rw [List.map_cons, List.flatten_cons, List.append_assoc] at hr
    obtain ⟨r1, hread, hr1⟩ := readFrame_frameOf hp hp.2 hr
    obtain ⟨r2, hreads, hr2⟩ := ih hps hr1
    refine ⟨r2, ?_, hr2⟩
    unfold readFrames
    rw [List.length_cons, hread]
    show (readFrames r1 payloads.length >>= _) = _
    rw [hreads]
    rfl

/-! ## Requests -/

theorem stringify_object_ne_nil (fields : List (Text × Value)) : stringify (.object fields) ≠ [] := by
  simp [stringify]

theorem encode_ne_nil {cs : List Char} (h : cs ≠ []) : Utf8.encode cs ≠ [] := by
  intro hnil
  have hdecode := Utf8.decode_encode cs
  rw [hnil] at hdecode
  exact h hdecode.symm

/-- **What the client encodes is the frame of the text of its request.** -/
theorem encodeFrame_eq_some {frame : List (Text × Value)} {sync : Bool} {bytes : List UInt8}
    (h : encodeFrame frame sync = some bytes) :
    Sendable (requestBytes frame sync) ∧ bytes = frameOf (requestBytes frame sync) := by
  unfold encodeFrame at h
  dsimp only at h
  split at h
  · cases h
  · rename_i hlen
    cases h
    exact ⟨⟨encode_ne_nil (stringify_object_ne_nil _), not_lt.mp hlen⟩, rfl⟩

/-! ## Replies -/

namespace SyncPath

variable {R : Type} (parseResponse : List UInt8 → R) (failConnect : R)

/-- What the bytes received so far decide. -/
def decided (bytes : List UInt8) : Option R :=
  if bytes.length < frameHeaderSize then none
  else
    let declaredLen := ofBeBytes (bytes.take frameHeaderSize)
    if declaredLen = 0 ∨ maxPayloadSize < declaredLen then some failConnect
    else if bytes.length < frameHeaderSize + declaredLen then none
    else some (parseResponse ((bytes.drop frameHeaderSize).take declaredLen))

/-- The length that the bytes received so far declare. -/
def declared (bytes : List UInt8) : Option Nat :=
  if bytes.length < frameHeaderSize then none else some (ofBeBytes (bytes.take frameHeaderSize))

/-- The path after `bytes` were received. -/
structure After (bytes : List UInt8) (s : SyncPath R) : Prop where
  result : s.result = decided parseResponse failConnect bytes
  destroyed : s.destroyed = s.result.isSome
  waiting : s.result = none →
    s.chunks.flatten = bytes ∧ s.received = bytes.length ∧ s.declaredLen = declared bytes

theorem after_armed : After parseResponse failConnect [] (armed : SyncPath R) :=
  ⟨rfl, rfl, fun _ => ⟨rfl, rfl, rfl⟩⟩

/-- More bytes do not change what is decided. -/
theorem decided_append {bytes more : List UInt8} {r : R}
    (h : decided parseResponse failConnect bytes = some r) :
    decided parseResponse failConnect (bytes ++ more) = some r := by
  unfold decided at h ⊢
  dsimp only at h ⊢
  by_cases hheader : bytes.length < frameHeaderSize
  · rw [if_pos hheader] at h
    cases h
  · have hlen : (bytes ++ more).length = bytes.length + more.length := List.length_append
    have htake : (bytes ++ more).take frameHeaderSize = bytes.take frameHeaderSize :=
      List.take_append_of_le_length (not_lt.mp hheader)
    rw [if_neg hheader] at h
    rw [if_neg (by omega), htake]
    split_ifs at h ⊢ with hbad hbody hbody'
    · exact h
    · omega
    · rw [List.drop_append_of_le_length (not_lt.mp hheader), List.take_append_of_le_length]
      · exact h
      · rw [List.length_drop]
        omega

/-- A result that the bytes decide is the one that is given. -/
theorem after_done {bytes : List UInt8} {s : SyncPath R} {r : R} (hresult : s.result = none)
    (hdestroyed : s.destroyed = true) (hdecided : decided parseResponse failConnect bytes = some r) :
    After parseResponse failConnect bytes (s.done r) := by
  have hdone : (s.done r).result = some r := by
    unfold done
    rw [hresult]
    rfl
  refine ⟨hdone.trans hdecided.symm, ?_, fun hnone => ?_⟩
  · rw [hdone]
    exact hdestroyed
  · rw [hdone] at hnone
    cases hnone

/-- A path that knows the length, or too few bytes to know it, decides as the bytes do. -/
theorem after_deliver {bytes : List UInt8} {s : SyncPath R} (hchunks : s.chunks.flatten = bytes)
    (hreceived : s.received = bytes.length) (hdeclared : s.declaredLen = declared bytes)
    (hgood : ∀ n, s.declaredLen = some n → ¬ (n = 0 ∨ maxPayloadSize < n)) (hresult : s.result = none)
    (hdestroyed : s.destroyed = false) :
    After parseResponse failConnect bytes (s.deliver parseResponse) := by
  unfold deliver
  cases hlen : s.declaredLen with
  | none =>
    rw [hdeclared] at hlen
    unfold declared at hlen
    split at hlen
    · rename_i hshort
      refine ⟨?_, ?_, fun _ => ⟨hchunks, hreceived, hdeclared⟩⟩
      · rw [hresult]
        unfold decided
        rw [if_pos hshort]
      · rw [hresult, hdestroyed]
        rfl
    · cases hlen
  | some n =>
    have hbad := hgood n hlen
    have hn := hlen
    rw [hdeclared] at hn
    unfold declared at hn
    split at hn
    · cases hn
    · rename_i hheader
      have hlength := Option.some.inj hn
      dsimp only
      split
      · rename_i hbody
        refine after_done parseResponse failConnect hresult rfl ?_
        unfold decided
        dsimp only
        rw [if_neg hheader, hlength, if_neg hbad, if_neg (by omega), hchunks]
      · rename_i hbody
        refine ⟨?_, ?_, fun _ => ⟨hchunks, hreceived, hdeclared⟩⟩
        · unfold decided
          dsimp only
          rw [hresult, if_neg hheader, hlength, if_neg hbad, if_pos (by omega)]
        · rw [hresult, hdestroyed]
          rfl

/-- A length that was declared is one that was accepted, where nothing is decided yet. -/
theorem decided_of_declared {bytes : List UInt8} {n : Nat} (h : declared bytes = some n)
    (hbad : n = 0 ∨ maxPayloadSize < n) : decided parseResponse failConnect bytes = some failConnect := by
  unfold declared at h
  unfold decided
  split at h
  · cases h
  · rename_i hheader
    rw [if_neg hheader, Option.some.inj h]
    dsimp only
    rw [if_pos hbad]

theorem declared_append {bytes more : List UInt8} {n : Nat} (h : declared bytes = some n) :
    declared (bytes ++ more) = some n := by
  unfold declared at h ⊢
  split at h
  · cases h
  · rename_i hheader
    rw [if_neg (by rw [List.length_append]; omega), List.take_append_of_le_length (not_lt.mp hheader)]
    exact h

/-- **A chunk adds its bytes.** -/
theorem After.onData {bytes chunk : List UInt8} {s : SyncPath R} (h : After parseResponse failConnect bytes s)
    (hopen : s.destroyed = false) :
    After parseResponse failConnect (bytes ++ chunk) (s.onData parseResponse failConnect chunk) := by
  have hresult : s.result = none := by
    rw [h.destroyed, Option.isSome_eq_false_iff, Option.isNone_iff_eq_none] at hopen
    exact hopen
  obtain ⟨hchunks, hreceived, hdeclared⟩ := h.waiting hresult
  have hchunks' : (s.chunks ++ [chunk]).flatten = bytes ++ chunk := by
    rw [List.flatten_append, hchunks, List.flatten_singleton]
  have hreceived' : s.received + chunk.length = (bytes ++ chunk).length := by
    rw [hreceived, List.length_append]
  unfold SyncPath.onData
  dsimp only
  rw [hreceived', hchunks']
  by_cases hfirst : (s.declaredLen.isNone && decide (frameHeaderSize ≤ (bytes ++ chunk).length)) = true
  · -- the header is whole for the first time
    rw [if_pos hfirst]
    rw [Bool.and_eq_true, decide_eq_true_eq] at hfirst
    have hnow : declared (bytes ++ chunk) = some (ofBeBytes ((bytes ++ chunk).take frameHeaderSize)) := by
      unfold declared
      rw [if_neg (not_lt.mpr hfirst.2)]
    by_cases hbad : ofBeBytes ((bytes ++ chunk).take frameHeaderSize) = 0 ∨
        maxPayloadSize < ofBeBytes ((bytes ++ chunk).take frameHeaderSize)
    · rw [if_pos hbad]
      exact after_done parseResponse failConnect hresult rfl
        (decided_of_declared parseResponse failConnect hnow hbad)
    · rw [if_neg hbad]
      refine after_deliver parseResponse failConnect hchunks' rfl hnow.symm ?_ hresult hopen
      intro n hn
      rwa [← Option.some.inj hn]
  · rw [if_neg hfirst]
    have hstill : s.declaredLen = declared (bytes ++ chunk) := by
      rw [Bool.and_eq_true, decide_eq_true_eq, not_and, Option.isNone_iff_eq_none] at hfirst
      cases hlen : s.declaredLen with
      | none =>
        unfold declared
        rw [if_pos (not_le.mp (hfirst hlen))]
      | some n => exact (declared_append (hdeclared.symm.trans hlen)).symm
    refine after_deliver parseResponse failConnect hchunks' rfl hstill ?_ hresult hopen
    intro n hn hbad
    have hold := h.result
    rw [decided_of_declared parseResponse failConnect (hdeclared.symm.trans hn) hbad, hresult] at hold
    cases hold

theorem After.data {bytes chunk : List UInt8} {s : SyncPath R} (h : After parseResponse failConnect bytes s) :
    After parseResponse failConnect (bytes ++ chunk) (s.step parseResponse failConnect (.data chunk)) := by
  unfold step
  split
  · rename_i hdestroyed
    rw [h.destroyed] at hdestroyed
    obtain ⟨r, hr⟩ := Option.isSome_iff_exists.mp hdestroyed
    have hdecided := h.result.symm.trans hr
    refine ⟨?_, h.destroyed, fun hnone => ?_⟩
    · rw [decided_append parseResponse failConnect hdecided, hr]
    · rw [hr] at hnone
      cases hnone
  · rename_i hopen
    exact h.onData parseResponse failConnect (Bool.not_eq_true _ ▸ hopen)

theorem After.run {bytes : List UInt8} {s : SyncPath R} (h : After parseResponse failConnect bytes s)
    (chunks : List (List UInt8)) :
    After parseResponse failConnect (bytes ++ chunks.flatten)
      ((chunks.map SocketEvent.data).foldl (step parseResponse failConnect) s) := by
  induction chunks generalizing bytes s with
  | nil => simpa using h
  | cons chunk chunks ih =>
    rw [List.flatten_cons, ← List.append_assoc]
    exact ih (h.data parseResponse failConnect)

/-- **What the caller is told depends on the bytes alone.** -/
theorem reply_eq (chunks : List (List UInt8)) :
    reply parseResponse failConnect chunks =
      some ((decided parseResponse failConnect chunks.flatten).getD failConnect) := by
  have h := (after_armed parseResponse failConnect).run parseResponse failConnect chunks
  rw [List.nil_append] at h
  unfold reply
  rw [List.foldl_append, List.foldl_cons, List.foldl_nil, ← h.result]
  have hdestroyed := h.destroyed
  generalize (chunks.map SocketEvent.data).foldl (step parseResponse failConnect) armed = s at hdestroyed ⊢
  unfold step
  cases hresult : s.result with
  | none => simp [hdestroyed, hresult, done]
  | some r => simp [hdestroyed, hresult]

/-- The reply to a request is the payload that the server framed, whatever follows it. -/
theorem decided_frameOf {payload : List UInt8} (h : Sendable payload) (rest : List UInt8) :
    decided parseResponse failConnect (frameOf payload ++ rest) = some (parseResponse payload) := by
  have hlength : ofBeBytes (beBytes payload.length) = payload.length :=
    ofBeBytes_beBytes (h.2.trans_lt (by decide))
  have hne : payload.length ≠ 0 := fun hnil => h.1 (List.length_eq_zero_iff.mp hnil)
  have htake : (frameOf payload ++ rest).take frameHeaderSize = beBytes payload.length := by
    unfold frameOf
    rw [List.append_assoc]
    exact List.take_left' (beBytes_length _)
  have hdrop : (frameOf payload ++ rest).drop frameHeaderSize = payload ++ rest := by
    unfold frameOf
    rw [List.append_assoc]
    exact List.drop_left' (beBytes_length _)
  have hlen : (frameOf payload ++ rest).length = frameHeaderSize + payload.length + rest.length := by
    unfold frameOf
    rw [List.length_append, List.length_append, beBytes_length]
    rfl
  unfold decided
  rw [htake, hdrop, hlen, hlength]
  dsimp only
  rw [if_neg (by omega), if_neg (not_or.mpr ⟨hne, not_lt.mpr h.2⟩), if_neg (by omega), List.take_left]

end SyncPath

/-- **The wire.** Frames are read back as they were written; a proper part of a frame is an error; the server reads
what the client encodes; and a reply does not depend on how its bytes are cut. -/
theorem wireFraming {R : Type} (parseResponse : List UInt8 → R) (failConnect : R) :
    (∀ payloads : List (List UInt8), (∀ p ∈ payloads, Sendable p) →
        ∃ bytes, writeFrames [] payloads = .ok bytes ∧
          ∀ reader : Reader, reader.contents = bytes →
            ∃ reader', readFrames reader payloads.length = .ok (payloads, reader') ∧
              reader'.contents = []) ∧
      (∀ payload frame part : List UInt8, Sendable payload → writeFrame [] payload = .ok frame →
        part <+: frame → part ≠ frame → ∀ reader : Reader, reader.contents = part →
          ∃ e, readFrame reader maxPayloadSize = .error e) ∧
      (∀ (frame : List (Text × Value)) (sync : Bool) (bytes : List UInt8),
        encodeFrame frame sync = some bytes → ∀ reader : Reader, reader.contents = bytes →
          ∃ reader', readFrame reader maxPayloadSize = .ok (requestBytes frame sync, reader') ∧
            reader'.contents = []) ∧
      ∀ chunks chunks' : List (List UInt8), chunks.flatten = chunks'.flatten →
        SyncPath.reply parseResponse failConnect chunks =
          SyncPath.reply parseResponse failConnect chunks' := by
  refine ⟨fun payloads h => ?_, fun payload frame part hp hwrite hpart hne reader hr => ?_,
    fun frame sync bytes h reader hr => ?_, fun chunks chunks' h => ?_⟩
  · refine ⟨_, writeFrames_eq h [], fun reader hr => readFrames_eq h ?_⟩
    rw [hr, List.nil_append, List.append_nil]
  · rw [writeFrame_eq hp.2, List.nil_append] at hwrite
    cases hwrite
    rcases readFrame_short hp hp.2 hpart hne hr with he | he
    · exact ⟨_, he⟩
    · exact ⟨_, he⟩
  · obtain ⟨hp, rfl⟩ := encodeFrame_eq_some h
    exact readFrame_frameOf hp hp.2 (by rw [hr, List.append_nil])
  · rw [SyncPath.reply_eq, SyncPath.reply_eq, h]

/-- Two payloads, written and read back. -/
theorem wireFraming_two :
    ∃ bytes, writeFrames [] [[1], [2, 3]] = .ok bytes ∧
      ∃ reader', readFrames (Reader.ofBytes bytes) 2 = .ok ([[1], [2, 3]], reader') ∧
        reader'.contents = [] := by
  have hsendable : ∀ p ∈ [[1], [2, 3]], Sendable p := by
    intro p hp
    rcases List.mem_pair.mp hp with rfl | rfl
    · exact ⟨List.cons_ne_nil _ _, by decide⟩
    · exact ⟨List.cons_ne_nil _ _, by decide⟩
  obtain ⟨bytes, hwrite, hread⟩ := (wireFraming (id : List UInt8 → List UInt8) []).1 [[1], [2, 3]] hsendable
  exact ⟨bytes, hwrite, hread _ (Reader.contents_ofBytes bytes)⟩

end Unimatrix.Wire
