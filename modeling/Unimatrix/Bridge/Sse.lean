import Unimatrix.Hook.TopicSignal
import Unimatrix.Lib.Utf8

/-!
# Server-sent events in chunks

Model of `sse-parse.js`: the body of a reply arrives in chunks; each is decoded on its own, its line ends are made
`\n`, and a record is emitted when the blank line after it has arrived.

* `JSON.parse` is the parameter `parse`; `none` where it throws. With `parse := some` the messages are the data texts.
* The idle timer (`readMs`) is left out: a stalled stream ends with an error instead of messages.

`text` is what the collector reads of some chunks. The messages are a function of it (`collect_eq`), and it is that of
the whole body iff no cut is inside a CRLF or inside a character (`Clean`): `text_eq_iff`. Hence **`collect_chunking`**.
-/

namespace Unimatrix.Sse

open Utf8

/-! ## The parser -/

/-- `replace(/\r\n/g, "\n")`. -/
def replaceCrLf : List Char → List Char
  | '\r' :: '\n' :: s => '\n' :: replaceCrLf s
  | c :: s => c :: replaceCrLf s
  | [] => []

/-- `replace(/\r/g, "\n")`. -/
def replaceCr (s : List Char) : List Char := s.map fun c => if c = '\r' then '\n' else c

/-- Both of them. -/
def normalize (s : List Char) : List Char := replaceCr (replaceCrLf s)

/-- The loop that cuts the buffer at `"\n\n"`, leftmost first: the records, and what is left. -/
def drain : List Char → List (List Char) × List Char
  | [] => ([], [])
  | '\n' :: '\n' :: s =>
    let r := drain s
    ([] :: r.1, r.2)
  | c :: s =>
    match drain s with
    | ([], rest) => ([], c :: rest)
    | (record :: records, rest) => ((c :: record) :: records, rest)

/-- What a record says. -/
structure Event where
  event : Option (List Char)
  id : Option (List Char)
  dataPayload : List Char
  deriving DecidableEq

/-- `String.prototype.trim`. -/
def trimText (s : List Char) : List Char := Words.trim TopicSignal.isJsWhitespace s

/-- The rest of a line that begins with `field`. -/
def fieldValue (field : String) (line : List Char) : Option (List Char) :=
  if field.toList.isPrefixOf line then some (line.drop field.length) else none

/-- `replace(/^ /, "")`. -/
def dropSpace : List Char → List Char
  | ' ' :: s => s
  | s => s

/-- One line of a record: the data lines so far, the event and the id. -/
def parseLine (acc : List (List Char) × Option (List Char) × Option (List Char)) (line : List Char) :
    List (List Char) × Option (List Char) × Option (List Char) :=
  if line = [] ∨ line.head? = some ':' then acc
  else
    match fieldValue "data:" line with
    | some value => (acc.1 ++ [dropSpace value], acc.2)
    | none =>
      match fieldValue "event:" line with
      | some value => (acc.1, some (trimText value), acc.2.2)
      | none =>
        match fieldValue "id:" line with
        | some value => (acc.1, acc.2.1, some (trimText value))
        | none => acc

/-- `parseRecord`. -/
def parseRecord (record : List Char) : Event :=
  let acc := (record.splitOn '\n').foldl parseLine ([], none, none)
  ⟨acc.2.1, acc.2.2, ['\n'].intercalate acc.1⟩

section Collect

variable {μ : Type} (parse : List Char → Option μ)

/-- `_emit`: the message of a record, if any. -/
def emit (record : List Char) : Option μ :=
  let ev := parseRecord record
  if ev.dataPayload ≠ [] then parse ev.dataPayload else none

/-- The state of the loop over the chunks. -/
structure Collector (μ : Type) where
  messages : List μ
  buffer : List Char
  total : Nat

/-- The body of the loop. -/
def Collector.push (st : Collector μ) (chunk : List UInt8) : Collector μ :=
  let r := drain (normalize (st.buffer ++ decode chunk))
  ⟨st.messages ++ r.1.filterMap (emit parse), r.2, st.total + chunk.length⟩

/-- The loop: it ends when more than `limit` bytes have arrived. -/
def collectLoop (limit : Nat) : Collector μ → List (List UInt8) → Collector μ
  | st, [] => st
  | st, chunk :: chunks =>
    let st := st.push parse chunk
    if limit < st.total then st else collectLoop limit st chunks

/-- `collect`. -/
def collect (limit : Nat) (chunks : List (List UInt8)) : List μ :=
  let st := collectLoop parse limit ⟨[], [], 0⟩ chunks
  if trimText st.buffer ≠ [] then st.messages ++ (emit parse st.buffer).toList else st.messages

end Collect

/-! ## Line ends -/

/-- A CRLF is cut between the two texts. -/
def CutsCrLf (x y : List Char) : Bool := x.getLast? == some '\r' && y.head? == some '\n'

/-- The first character is kept unless it begins a CRLF. -/
theorem replaceCrLf_cons {c : Char} {s : List Char} (h : c ≠ '\r' ∨ s.head? ≠ some '\n') :
    replaceCrLf (c :: s) = c :: replaceCrLf s := by
  rw [replaceCrLf]
  rintro s' rfl rfl
  rcases h with h | h
  · exact h rfl
  · exact h rfl

theorem replaceCrLf_append_of_not_mem {x : List Char} (h : '\r' ∉ x) (y : List Char) :
    replaceCrLf (x ++ y) = x ++ replaceCrLf y := by
  induction x with
  | nil => rfl
  | cons c x ih =>
    rw [List.mem_cons, not_or] at h
    rw [List.cons_append, replaceCrLf_cons (.inl (Ne.symm h.1)), ih h.2, List.cons_append]

/-- What has been normalized is not changed again. -/
theorem normalize_append_of_not_mem {x : List Char} (h : '\r' ∉ x) (y : List Char) :
    normalize (x ++ y) = x ++ normalize y := by
  have hx : replaceCr x = x := by
    unfold replaceCr
    conv_rhs => rw [← List.map_id x]
    refine List.map_congr_left fun c hc => if_neg ?_
    rintro rfl
    exact h hc
  unfold normalize
  rw [replaceCrLf_append_of_not_mem h]
  unfold replaceCr at hx ⊢
  rw [List.map_append, hx]

theorem not_mem_normalize (x : List Char) : '\r' ∉ normalize x := by
  unfold normalize replaceCr
  rw [List.mem_map]
  rintro ⟨c, -, hc⟩
  split at hc
  · cases hc
  · rename_i hne
    exact hne hc

theorem cutsCrLf_tail {c : Char} {x y : List Char} (h : CutsCrLf (c :: x) y = false) :
    CutsCrLf x y = false := by
  cases x with
  | nil => rfl
  | cons d x =>
    unfold CutsCrLf at h ⊢
    rwa [List.getLast?_cons_cons] at h

/-- Cut elsewhere than inside a CRLF, a text is normalized in parts. -/
theorem normalize_append {x y : List Char} (h : CutsCrLf x y = false) :
    normalize (x ++ y) = normalize x ++ normalize y := by
  have hcrlf : replaceCrLf (x ++ y) = replaceCrLf x ++ replaceCrLf y := by
    fun_induction replaceCrLf x with
    | case1 x ih =>
      have hx := cutsCrLf_tail (cutsCrLf_tail h)
      rw [List.cons_append, List.cons_append, replaceCrLf, ih hx, List.cons_append]
    | case2 c x hne ih =>
      have hkeep : c ≠ '\r' ∨ (x ++ y).head? ≠ some '\n' := by
        rw [← not_and_or]
        rintro ⟨rfl, hhead⟩
        cases x with
        | nil =>
          unfold CutsCrLf at h
          rw [List.nil_append] at hhead
          rw [hhead] at h
          exact absurd h (by decide)
        | cons d x =>
          have hd : d = '\n' := Option.some.inj hhead
          subst hd
          exact hne x rfl rfl
      rw [List.cons_append, replaceCrLf_cons hkeep, ih (cutsCrLf_tail h), List.cons_append]
    | case3 => rfl
  unfold normalize
  rw [hcrlf]
  exact List.map_append

/-- Cut inside a CRLF, its line break is read twice. -/
theorem normalize_append_cut {x y : List Char} (h : CutsCrLf x y) :
    (normalize (x ++ y)).length + 1 = (normalize x).length + (normalize y).length := by
  unfold CutsCrLf at h
  rw [Bool.and_eq_true, beq_iff_eq, beq_iff_eq] at h
  obtain ⟨x, rfl⟩ := List.getLast?_eq_some_iff.mp h.1
  obtain ⟨y, rfl⟩ := List.head?_eq_some_iff.mp h.2
  have hwhole : x ++ ['\r'] ++ '\n' :: y = x ++ '\r' :: '\n' :: y := by
    rw [List.append_assoc, List.singleton_append]
  have hnone : ∀ s, CutsCrLf x ('\r' :: s) = false := by
    intro s
    unfold CutsCrLf
    rw [List.head?_cons]
    exact Bool.and_false _
  have hpair : normalize ('\r' :: '\n' :: y) = '\n' :: normalize y := rfl
  have hlf : normalize ('\n' :: y) = '\n' :: normalize y :=
    congrArg replaceCr (replaceCrLf_cons (.inl (by decide)))
  have hcr : normalize ['\r'] = ['\n'] := rfl
  rw [hwhole, normalize_append (hnone _), hpair, normalize_append (hnone []), hcr, hlf]
  simp only [List.length_append, List.length_cons, List.length_nil]
  omega

theorem length_normalize_append (x y : List Char) :
    (normalize (x ++ y)).length ≤ (normalize x).length + (normalize y).length := by
  cases h : CutsCrLf x y with
  | true =>
    have := normalize_append_cut h
    omega
  | false => rw [normalize_append h, List.length_append]

/-- Characters that are no line breaks stand by themselves. -/
theorem length_normalize_insert {m : List Char} (hm : m ≠ []) (h : ∀ c ∈ m, c ≠ '\r' ∧ c ≠ '\n')
    (x y : List Char) :
    (normalize (x ++ m ++ y)).length = (normalize x).length + m.length + (normalize y).length := by
  have hleft : CutsCrLf x m = false := by
    unfold CutsCrLf
    obtain ⟨c, m', rfl⟩ := List.exists_cons_of_ne_nil hm
    have hc := (h c List.mem_cons_self).2
    rw [List.head?_cons, Bool.and_eq_false_iff]
    exact .inr (by rw [beq_eq_false_iff_ne]; exact fun he => hc (Option.some.inj he))
  have hright : CutsCrLf (x ++ m) y = false := by
    unfold CutsCrLf
    rw [List.getLast?_append_of_ne_nil x hm, List.getLast?_eq_some_getLast hm, Bool.and_eq_false_iff]
    refine .inl ?_
    rw [beq_eq_false_iff_ne]
    exact fun he => (h _ (List.getLast_mem hm)).1 (Option.some.inj he)
  have hself : normalize m = m := by
    have := normalize_append_of_not_mem (x := m) (fun hr => (h _ hr).1 rfl) []
    rwa [List.append_nil, show normalize [] = [] from rfl, List.append_nil] at this
  rw [normalize_append hright, normalize_append hleft, hself]
  simp only [List.length_append]

/-! ## What is read of some chunks -/

/-- The text the collector cuts into records. -/
def text (chunks : List (List UInt8)) : List Char :=
  (chunks.map fun chunk => normalize (decode chunk)).flatten

/-- The body is cut inside a character or inside a CRLF between `x` and `y`. -/
def Torn (x y : List UInt8) : Bool := Cuts x y || CutsCrLf (decode x) (decode y)

/-- No cut is inside a character or inside a CRLF. -/
def Clean : List (List UInt8) → Prop
  | [] => True
  | x :: xs => Torn x xs.flatten = false ∧ Clean xs

instance Clean.decidable : (xs : List (List UInt8)) → Decidable (Clean xs)
  | [] => isTrue trivial
  | x :: xs =>
    have := Clean.decidable xs
    inferInstanceAs (Decidable (Torn x xs.flatten = false ∧ Clean xs))

/-- Cut elsewhere, a body is read in two parts. -/
theorem read_append {x y : List UInt8} (h : Torn x y = false) :
    normalize (decode (x ++ y)) = normalize (decode x) ++ normalize (decode y) := by
  obtain ⟨hchar, hcrlf⟩ := Bool.or_eq_false_iff.mp h
  rw [decode_append hchar, normalize_append hcrlf]

/-- A torn body is read as a longer text. -/
theorem read_append_torn {x y : List UInt8} (h : Torn x y) :
    (normalize (decode (x ++ y))).length <
      (normalize (decode x)).length + (normalize (decode y)).length := by
  cases hchar : Cuts x y with
  | false =>
    have hcrlf : CutsCrLf (decode x) (decode y) = true := by
      unfold Torn at h
      rwa [hchar, Bool.false_or] at h
    rw [decode_append hchar]
    have := normalize_append_cut hcrlf
    omega
  | true =>
    obtain ⟨pre, c, k, post, hwhole, hparts, hr, hn⟩ := decode_append_cut hchar
    have hone := length_normalize_insert (m := [c]) (by simp) (by simpa using ⟨hr, hn⟩) pre post
    have hmany := length_normalize_insert (m := List.replicate (k + 2) replacement)
      (by simp) (fun d hd => by rw [List.eq_of_mem_replicate hd]; decide) pre post
    have hle := length_normalize_append (decode x) (decode y)
    have hsingle : pre ++ c :: post = pre ++ [c] ++ post := by
      rw [List.append_assoc, List.singleton_append]
    rw [hwhole, hsingle, hone]
    rw [hparts, hmany] at hle
    simp only [List.length_replicate, List.length_cons, List.length_nil] at hle ⊢
    omega

theorem length_text_ge (chunks : List (List UInt8)) :
    (normalize (decode chunks.flatten)).length ≤ (text chunks).length := by
  induction chunks with
  | nil => exact Nat.le_refl _
  | cons x xs ih =>
    have hle : (normalize (decode (x ++ xs.flatten))).length ≤
        (normalize (decode x)).length + (normalize (decode xs.flatten)).length := by
      cases h : Torn x xs.flatten with
      | true => exact (read_append_torn h).le
      | false => rw [read_append h, List.length_append]
    rw [List.flatten_cons]
    change _ ≤ (normalize (decode x) ++ text xs).length
    rw [List.length_append]
    omega

/-- **The chunks are read as the whole body iff the cuts are clean.** -/
theorem text_eq_iff (chunks : List (List UInt8)) :
    text chunks = normalize (decode chunks.flatten) ↔ Clean chunks := by
  induction chunks with
  | nil => exact ⟨fun _ => trivial, fun _ => rfl⟩
  | cons x xs ih =>
    have htext : text (x :: xs) = normalize (decode x) ++ text xs := rfl
    rw [List.flatten_cons, htext]
    constructor
    · intro h
      have hlen := congrArg List.length h
      rw [List.length_append] at hlen
      have hge := length_text_ge xs
      have hclean : Torn x xs.flatten = false := by
        rw [Bool.eq_false_iff]
        intro ht
        have := read_append_torn ht
        omega
      rw [read_append hclean, List.append_cancel_left_eq] at h
      exact ⟨hclean, ih.mp h⟩
    · rintro ⟨hclean, hxs⟩
      rw [read_append hclean, ih.mpr hxs]

/-! ## The records of a text -/

theorem drain_lf_lf (s : List Char) : drain ('\n' :: '\n' :: s) = ([] :: (drain s).1, (drain s).2) := rfl

/-- A character that begins no blank line begins the record that follows. -/
theorem drain_cons_of_cons {c : Char} {s record : List Char} {records : List (List Char)}
    (h : c ≠ '\n' ∨ s.head? ≠ some '\n') (hs : (drain s).1 = record :: records) :
    drain (c :: s) = ((c :: record) :: records, (drain s).2) := by
  rw [drain]
  · generalize drain s = r at hs ⊢
    obtain ⟨records', rest⟩ := r
    have hcons : records' = record :: records := hs
    rw [hcons]
  · rintro s' rfl rfl
    exact h.elim (fun h => h rfl) fun h => h rfl

theorem drain_of_nil {s : List Char} (h : (drain s).1 = []) : drain s = ([], s) := by
  fun_induction drain s with
  | case1 => rfl
  | case2 s r ih => cases h
  | case3 c s hne rest hs ih =>
    have hrest := ih (by rw [hs])
    rw [hs] at hrest
    rw [(Prod.mk.inj hrest).2]
  | case4 c s hne record records rest hs ih => cases h

/-- What is left is the end of the text. -/
theorem drain_suffix (s : List Char) : (drain s).2 <:+ s := by
  fun_induction drain s with
  | case1 => exact List.suffix_refl []
  | case2 s r ih => exact ih.trans ((List.suffix_cons _ s).trans (List.suffix_cons _ _))
  | case3 c s hne rest hs ih =>
    have hrest := drain_of_nil (s := s) (by rw [hs])
    rw [hs] at hrest
    exact (Prod.mk.inj hrest).2 ▸ List.suffix_refl _
  | case4 c s hne record records rest hs ih =>
    rw [hs] at ih
    exact ih.trans (List.suffix_cons c s)

/-- **The records of a text are those of its beginning, and those of what that leaves with the rest.** -/
theorem drain_append (x y : List Char) :
    drain (x ++ y) = ((drain x).1 ++ (drain ((drain x).2 ++ y)).1, (drain ((drain x).2 ++ y)).2) := by
  fun_induction drain x with
  | case1 => rfl
  | case2 x r ih =>
    rw [List.cons_append, List.cons_append, drain_lf_lf, ih]
    rfl
  | case3 c x hne rest hs ih =>
    have hrest := drain_of_nil (s := x) (by rw [hs])
    rw [hs] at hrest
    rw [(Prod.mk.inj hrest).2]
    rfl
  | case4 c x hne record records rest hs ih =>
    have hhead : c ≠ '\n' ∨ (x ++ y).head? ≠ some '\n' := by
      rw [← not_and_or]
      rintro ⟨rfl, hhead⟩
      cases x with
      | nil =>
        cases hs
      | cons d x =>
        have hd : d = '\n' := Option.some.inj hhead
        subst hd
        exact hne x rfl rfl
    have htail : drain (x ++ y) = (record :: (records ++ (drain (rest ++ y)).1), (drain (rest ++ y)).2) := by
      rw [ih, hs, List.cons_append]
    rw [List.cons_append, drain_cons_of_cons hhead (by rw [htail]), htail]
    rfl

theorem drain_rest (s : List Char) : drain (drain s).2 = ([], (drain s).2) := by
  have h := drain_append s []
  rw [List.append_nil, List.append_nil] at h
  refine drain_of_nil ?_
  have h₁ := congrArg Prod.fst h
  simpa using h₁

/-! ## The messages -/

section Messages

variable {μ : Type} (parse : List Char → Option μ)

/-- The messages of a text that ends here. -/
def messagesOf (s : List Char) : List μ :=
  let r := drain s
  if trimText r.2 ≠ [] then r.1.filterMap (emit parse) ++ (emit parse r.2).toList
  else r.1.filterMap (emit parse)

/-- The loop reads on from the buffer. -/
theorem collectLoop_eq {limit : Nat} (st : Collector μ) {chunks : List (List UInt8)}
    (hlimit : st.total + chunks.flatten.length ≤ limit) (hcr : '\r' ∉ st.buffer)
    (hbuf : drain st.buffer = ([], st.buffer)) :
    (collectLoop parse limit st chunks).messages =
        st.messages ++ (drain (st.buffer ++ text chunks)).1.filterMap (emit parse) ∧
      (collectLoop parse limit st chunks).buffer = (drain (st.buffer ++ text chunks)).2 := by
  induction chunks generalizing st with
  | nil =>
    have hnil : st.buffer ++ text [] = st.buffer := List.append_nil _
    rw [hnil, hbuf]
    exact ⟨(List.append_nil _).symm, rfl⟩
  | cons chunk chunks ih =>
    rw [List.flatten_cons, List.length_append] at hlimit
    have hpush : st.push parse chunk =
        ⟨st.messages ++ (drain (st.buffer ++ normalize (decode chunk))).1.filterMap (emit parse),
          (drain (st.buffer ++ normalize (decode chunk))).2, st.total + chunk.length⟩ := by
      unfold Collector.push
      rw [normalize_append_of_not_mem hcr]
    have htext : st.buffer ++ text (chunk :: chunks) =
        (st.buffer ++ normalize (decode chunk)) ++ text chunks := by
      rw [List.append_assoc]
      rfl
    have hsuffix := drain_suffix (st.buffer ++ normalize (decode chunk))
    have hcr' : '\r' ∉ (drain (st.buffer ++ normalize (decode chunk))).2 := fun hmem =>
      (List.mem_append.mp (hsuffix.subset hmem)).elim hcr (not_mem_normalize _)
    unfold collectLoop
    simp only
    rw [hpush, if_neg (by simp only; omega), htext]
    generalize st.buffer ++ normalize (decode chunk) = z at hcr' ⊢
    obtain ⟨hmessages, hbuffer⟩ := ih ⟨st.messages ++ (drain z).1.filterMap (emit parse),
      (drain z).2, st.total + chunk.length⟩ (by simp only; omega) hcr' (drain_rest z)
    rw [hmessages, hbuffer, drain_append z, List.filterMap_append, List.append_assoc]
    exact ⟨rfl, rfl⟩

/-- **Within the limit the messages are those of the text.** -/
theorem collect_eq {limit : Nat} {chunks : List (List UInt8)} (h : chunks.flatten.length ≤ limit) :
    collect parse limit chunks = messagesOf parse (text chunks) := by
  have hlimit : (⟨[], [], 0⟩ : Collector μ).total + chunks.flatten.length ≤ limit := by
    simpa using h
  obtain ⟨hmessages, hbuffer⟩ := collectLoop_eq parse ⟨[], [], 0⟩ hlimit List.not_mem_nil rfl
  unfold collect messagesOf
  simp only
  rw [hmessages, hbuffer, List.nil_append, List.nil_append]

/-- **Two splittings of a body without a torn cut give the same messages.** -/
theorem collect_chunking (limit : Nat) (chunks chunks' : List (List UInt8))
    (hsame : chunks.flatten = chunks'.flatten) (hlimit : chunks.flatten.length ≤ limit)
    (hclean : Clean chunks) (hclean' : Clean chunks') :
    collect parse limit chunks = collect parse limit chunks' := by
  rw [collect_eq parse hlimit, collect_eq parse (by rw [← hsame]; exact hlimit),
    (text_eq_iff chunks).mpr hclean, (text_eq_iff chunks').mpr hclean', hsame]

end Messages

/-- `JSON.parse` on string literals without escapes; other texts are none here. -/
def parseQuoted (s : List Char) : Option (List Char) :=
  let inner := s.tail.dropLast
  if s.head?.map Char.toNat = some 0x22 ∧ s.tail.getLast?.map Char.toNat = some 0x22 ∧
      inner.all fun c => 0x20 ≤ c.toNat && c.toNat != 0x22 && c.toNat != 0x5c then
    some inner
  else none

/-- The beginning of a data line, up to the opening quote. -/
def openData : List UInt8 := [0x64, 0x61, 0x74, 0x61, 0x3a, 0x20, 0x22]

/-- One event, whose data is an accented letter: whole, and cut before the letter. -/
theorem collect_chunking_accent :
    collect parseQuoted 100 [openData ++ [0xc3, 0xa9, 0x22, 0x0a, 0x0a]] =
      collect parseQuoted 100 [openData, [0xc3, 0xa9, 0x22, 0x0a, 0x0a]] :=
  collect_chunking parseQuoted 100 [openData ++ [0xc3, 0xa9, 0x22, 0x0a, 0x0a]]
    [openData, [0xc3, 0xa9, 0x22, 0x0a, 0x0a]] (by decide) (by decide) (by decide +kernel)
    (by decide +kernel)

/-- Cut inside the letter, its two bytes are replaced; and with two data lines and a cut inside the CRLF between
them, there are two messages where there was none. -/
theorem torn_differs :
    collect parseQuoted 100 [openData ++ [0xc3, 0xa9, 0x22, 0x0a, 0x0a]] = [['\u00e9']] ∧
      collect parseQuoted 100 [openData ++ [0xc3], [0xa9, 0x22, 0x0a, 0x0a]] =
        [[replacement, replacement]] ∧
      collect parseQuoted 100 [openData ++ [0x61, 0x22, 0x0d, 0x0a] ++ openData ++ [0x62, 0x22, 0x0a]] = [] ∧
      collect parseQuoted 100 [openData ++ [0x61, 0x22, 0x0d], [0x0a] ++ openData ++ [0x62, 0x22, 0x0a]] =
        [['a'], ['b']] := by
  decide +kernel

end Unimatrix.Sse
