import Mathlib.Logic.Function.Basic
import Unimatrix.Hook.TopicSignal
import Unimatrix.Lib.Encode
import Unimatrix.Lib.JsonWrite
import Unimatrix.Lib.Runs
import Unimatrix.Store.Hash

/-!
# The bearer token

Model of `load_or_generate_token` (`token.rs`), of `StaticTokenValidator` (`auth.rs`) and of `read_token_hex`
(`client_bundle.rs`).

* A world is the token file, the temporary files by process id, and the processes that want the token. A step is one
  operation of one process on the files. What an operation of the system comes to, `io`, is told by the event; a process
  can crash anywhere, and a write can be cut short.
* Two processes may have the same id. A process that loads is told whether its deadline has passed.
* Modes of files, and the texts of errors of the system, are left out. The comparison takes no time.

**`token_agreement`**: however the processes interleave and whatever fails, those that get a token get the same one,
it is the one in the file, and it stays there. **`readTokenHex_spec`**: the token that a bundle carries is accepted
by a server that loaded the same file.
-/

namespace Unimatrix.Http

open TopicSignal

/-! ## The code -/

/-- `hex::encode`. -/
def hexEncode (bytes : List UInt8) : List Char := bytes.flatMap hexByte

/-- `hex::decode`. -/
def hexDecode : List Char → Option (List UInt8)
  | [] => some []
  | [_] => none
  | a :: b :: cs => do
    let high ← Json.hexValue a
    let low ← Json.hexValue b
    let bytes ← hexDecode cs
    return .ofNat (high * 16 + low) :: bytes

/-- `TOKEN_HEX_LEN`. -/
def tokenHexLen : Nat := 64

/-- `str::trim_end`. -/
def trimEnd (s : List Char) : List Char := s.rdropWhile isRustWhitespace

/-- `char::is_ascii_hexdigit`. -/
def isHexDigit (c : Char) : Bool := (Json.hexValue c).isSome

/-- What `load_or_generate_token` fails with. -/
inductive TokenError where
  | io
  | wrongLength (found : Nat)
  | nonHex
  deriving DecidableEq

/-- `validate_token_format`. -/
def validateTokenFormat (hexStr : List Char) : Except TokenError Unit :=
  if (Utf8.encode hexStr).length ≠ tokenHexLen then .error (.wrongLength (Utf8.encode hexStr).length)
  else if !hexStr.all isHexDigit then .error .nonHex
  else .ok ()

/-- What `load_existing_token` makes of what it read last. -/
def tokenOf (content : List Char) : Except TokenError (List UInt8) :=
  match validateTokenFormat (trimEnd content) with
  | .error e => .error e
  | .ok () =>
    match hexDecode (trimEnd content) with
    | some bytes => .ok bytes
    | none => .error .nonHex

/-- A process that wants the token. -/
inductive Proc where
  | start
  /-- It has created the file. -/
  | won (token : Vector UInt8 32)
  | cleared (token : Vector UInt8 32)
  | writing (token : Vector UInt8 32)
  | written (token : Vector UInt8 32)
  | published (token : Vector UInt8 32)
  /-- The file was there already. -/
  | loading
  | done (result : Except TokenError (List UInt8))
  | crashed

/-- The token file, the temporary files and the processes. -/
structure World where
  final : Option (List Char)
  temps : Nat → Option (List Char)
  procs : Nat → Proc

/-- What a process does next. -/
inductive Op where
  /-- `create_token_file`, with a token that was generated. -/
  | create (token : Vector UInt8 32) (io : Bool)
  /-- `remove_file` on a temporary file that was left behind. -/
  | clear
  /-- `create_temp_token_file`. -/
  | createTemp (io : Bool)
  /-- A part of `write_all`. -/
  | writeSome (n : Nat)
  /-- The end of `write_all`. -/
  | write (io : Bool)
  | rename (io : Bool)
  /-- `write_new_token` returns. -/
  | finish
  /-- One turn of the loop of `load_existing_token`. -/
  | load (io deadline : Bool)
  | crash

section Step

variable (pid : Nat → Nat)

/-- The world after process `r` went to `p`. -/
def World.goes (w : World) (r : Nat) (p : Proc) : World := { w with procs := Function.update w.procs r p }

/-- The world with this temporary file of process `r`. -/
def World.setTemp (w : World) (r : Nat) (content : Option (List Char)) : World :=
  { w with temps := Function.update w.temps (pid r) content }

/-- Process `r` performs an operation, if it is there. -/
def act (w : World) (r : Nat) (op : Op) : World :=
  match w.procs r, op with
  | .start, .create token io =>
    if io then
      match w.final with
      | none => World.goes { w with final := some [] } r (.won token)
      | some _ => w.goes r .loading
    else w.goes r (.done (.error .io))
  | .won token, .clear => (w.setTemp pid r none).goes r (.cleared token)
  | .cleared token, .createTemp io =>
    if io ∧ w.temps (pid r) = none then (w.setTemp pid r (some [])).goes r (.writing token)
    else w.goes r (.done (.error .io))
  | .writing token, .writeSome n => w.setTemp pid r (some ((hexEncode token.toList).take n))
  | .writing token, .write io =>
    if io then (w.setTemp pid r (some (hexEncode token.toList))).goes r (.written token)
    else (w.setTemp pid r none).goes r (.done (.error .io))
  | .written token, .rename io =>
    match w.temps (pid r) with
    | some content =>
      if io then World.goes { w.setTemp pid r none with final := some content } r (.published token)
      else (w.setTemp pid r none).goes r (.done (.error .io))
    | none => w.goes r (.done (.error .io))
  | .published token, .finish => w.goes r (.done (.ok token.toList))
  | .loading, .load io deadline =>
    if io then
      match w.final with
      | none => w.goes r (.done (.error .io))
      | some content =>
        if tokenHexLen ≤ (Utf8.encode (trimEnd content)).length ∨ deadline then w.goes r (.done (tokenOf content)) else w
    else w.goes r (.done (.error .io))
  | .done _, .crash => w
  | _, .crash => w.goes r .crashed
  | _, _ => w

/-- A step: a process and its operation. -/
def electionStep (w : World) (e : Nat × Op) : World := act pid w e.1 e.2

end Step

/-- `validate_sync`: whether the token is accepted. -/
def validateSync (tokenBytes : Vector UInt8 32) (token : List Char) : Bool :=
  match hexDecode token with
  | some presented => presented.length == 32 && presented == tokenBytes.toList
  | none => false

/-- `read_token_hex`, of what is in the file. -/
def readTokenHex (content : List Char) : Option (List Char) :=
  if (Utf8.encode (trimEnd content)).length ≠ tokenHexLen || !(trimEnd content).all isHexDigit then none
  else some ((trimEnd content).map Char.toLower)

/-! ## Hexadecimal -/

theorem hexDecode_hexEncode : ∀ bytes : List UInt8, hexDecode (hexEncode bytes) = some bytes
  | [] => rfl
  | b :: bytes => by
    have hb := b.toNat_lt
    have hhigh : Json.hexValue (Nat.digitChar (b.toNat / 16)) = some (b.toNat / 16) :=
      Json.hexValue_digitChar (by omega)
    have hlow : Json.hexValue (Nat.digitChar (b.toNat % 16)) = some (b.toNat % 16) :=
      Json.hexValue_digitChar (by omega)
    have hvalue : UInt8.ofNat (b.toNat / 16 * 16 + b.toNat % 16) = b := by
      rw [Nat.div_add_mod', UInt8.ofNat_toNat]
    show hexDecode (Nat.digitChar (b.toNat / 16) :: Nat.digitChar (b.toNat % 16) :: hexEncode bytes) = _
    simp only [hexDecode, hhigh, hlow, hexDecode_hexEncode bytes, Option.bind_eq_bind, Option.bind_some, hvalue,
      Option.pure_def]

theorem length_hexEncode (bytes : List UInt8) : (hexEncode bytes).length = 2 * bytes.length := by
  unfold hexEncode
  rw [List.length_flatMap]
  induction bytes with
  | nil => rfl
  | cons b bytes ih =>
    rw [List.map_cons, List.sum_cons, ih, List.length_cons]
    show 2 + _ = _
    omega

theorem isHexDigit_hexEncode {bytes : List UInt8} {c : Char} (h : c ∈ hexEncode bytes) : isHexDigit c = true := by
  obtain ⟨b, -, hc⟩ := List.mem_flatMap.mp h
  have hb := b.toNat_lt
  unfold isHexDigit
  simp only [hexByte, List.mem_cons, List.not_mem_nil, or_false] at hc
  rcases hc with rfl | rfl
  · rw [Json.hexValue_digitChar (by omega)]
    rfl
  · rw [Json.hexValue_digitChar (by omega)]
    rfl

theorem toNat_of_isHexDigit {c : Char} (h : isHexDigit c = true) :
    (48 ≤ c.toNat ∧ c.toNat ≤ 57) ∨ (97 ≤ c.toNat ∧ c.toNat ≤ 102) ∨ (65 ≤ c.toNat ∧ c.toNat ≤ 70) := by
  unfold isHexDigit Json.hexValue at h
  split_ifs at h with hdigit hlower hupper
  · exact .inl hdigit
  · exact .inr (.inl hlower)
  · exact .inr (.inr hupper)
  · cases h

theorem length_encode_hex {s : List Char} (h : s.all isHexDigit = true) : (Utf8.encode s).length = s.length := by
  refine Utf8.length_encode_ascii fun c hc => ?_
  have := toNat_of_isHexDigit (List.all_eq_true.mp h c hc)
  omega

theorem trimEnd_hex {s : List Char} (h : s.all isHexDigit = true) : trimEnd s = s := by
  refine List.rdropWhile_eq_self_iff.mpr fun hne hspace => ?_
  have hrange := toNat_of_isHexDigit (List.all_eq_true.mp h _ (List.getLast_mem hne))
  generalize s.getLast hne = c at hrange hspace
  unfold isRustWhitespace isCommonWhitespace at hspace
  simp only [Bool.or_eq_true, Bool.and_eq_true, decide_eq_true_eq, beq_iff_eq] at hspace
  omega

theorem hexDecode_of_isHexDigit : ∀ {s : List Char} {n : Nat}, s.all isHexDigit = true → s.length = 2 * n →
    ∃ bytes, hexDecode s = some bytes ∧ bytes.length = n
  | [], n, _, hlen => ⟨[], rfl, by simp only [List.length_nil] at hlen ⊢; omega⟩
  | [_], n, _, hlen => by
    simp only [List.length_cons, List.length_nil] at hlen
    omega
  | a :: b :: s, 0, _, hlen => by
    simp only [List.length_cons] at hlen
    omega
  | a :: b :: s, n + 1, h, hlen => by
    simp only [List.all_cons, Bool.and_eq_true] at h
    obtain ⟨high, hhigh⟩ := Option.isSome_iff_exists.mp h.1
    obtain ⟨low, hlow⟩ := Option.isSome_iff_exists.mp h.2.1
    simp only [List.length_cons] at hlen
    obtain ⟨bytes, hbytes, hn⟩ := hexDecode_of_isHexDigit (n := n) h.2.2 (by omega)
    refine ⟨.ofNat (high * 16 + low) :: bytes, ?_, by rw [List.length_cons, hn]⟩
    simp only [hexDecode, hhigh, hlow, hbytes, Option.bind_eq_bind, Option.bind_some, Option.pure_def]

/-- A letter may be written small or large. -/
theorem hexValue_toLower {c : Char} (h : isHexDigit c = true) : Json.hexValue c.toLower = Json.hexValue c := by
  have hall : ∀ n : Fin 128, Json.hexValue (Char.ofNat n).toLower = Json.hexValue (Char.ofNat n) := by decide
  have hrange := toNat_of_isHexDigit h
  have hc := hall ⟨c.toNat, by omega⟩
  rwa [Char.ofNat_toNat] at hc

theorem hexDecode_toLower : ∀ {s : List Char}, s.all isHexDigit = true → hexDecode (s.map Char.toLower) = hexDecode s
  | [], _ => rfl
  | [_], _ => rfl
  | a :: b :: s, h => by
    simp only [List.all_cons, Bool.and_eq_true] at h
    simp only [List.map_cons, hexDecode, hexValue_toLower h.1, hexValue_toLower h.2.1, hexDecode_toLower h.2.2]

/-! ## Tokens and files -/

theorem validateTokenFormat_eq_ok {s : List Char} :
    validateTokenFormat s = .ok () ↔ (Utf8.encode s).length = tokenHexLen ∧ s.all isHexDigit = true := by
  unfold validateTokenFormat
  split_ifs with hlen hhex
  · exact iff_of_false (fun h => by cases h) fun h => hlen h.1
  · refine iff_of_false (fun h => by cases h) fun h => ?_
    rw [h.2] at hhex
    cases hhex
  · exact iff_of_true rfl ⟨not_not.mp hlen, by simpa using hhex⟩

/-- **What is read back from a file that was written.** -/
theorem tokenOf_hexEncode (token : Vector UInt8 32) : tokenOf (hexEncode token.toList) = .ok token.toList := by
  have hhex : (hexEncode token.toList).all isHexDigit = true := List.all_eq_true.mpr fun c hc => isHexDigit_hexEncode hc
  have hlen : (Utf8.encode (hexEncode token.toList)).length = tokenHexLen := by
    rw [length_encode_hex hhex, length_hexEncode, Vector.length_toList]
    rfl
  unfold tokenOf
  rw [trimEnd_hex hhex, validateTokenFormat_eq_ok.mpr ⟨hlen, hhex⟩]
  simp only [hexDecode_hexEncode]

theorem tokenOf_nil : tokenOf [] = .error (.wrongLength 0) := rfl

/-- **The token of a bundle is accepted** by a server that loaded the same file. -/
theorem readTokenHex_spec {content hex : List Char} (h : readTokenHex content = some hex) :
    ∃ token : Vector UInt8 32, tokenOf content = .ok token.toList ∧ validateSync token hex = true ∧
      hex.length = tokenHexLen ∧ ∀ c ∈ hex, c.isDigit = true ∨ ('a' ≤ c ∧ c ≤ 'f') := by
  unfold readTokenHex at h
  split_ifs at h with hbad
  cases h
  simp only [Bool.or_eq_true, decide_eq_true_eq, Bool.not_eq_true', not_or, not_not, Bool.not_eq_false] at hbad
  obtain ⟨hlen, hhex⟩ := hbad
  have hlength := (length_encode_hex hhex).symm.trans hlen
  obtain ⟨bytes, hbytes, hn⟩ := hexDecode_of_isHexDigit hhex (show _ = 2 * 32 from hlength)
  refine ⟨⟨bytes.toArray, hn⟩, ?_, ?_, ?_, ?_⟩
  · unfold tokenOf
    rw [validateTokenFormat_eq_ok.mpr ⟨hlen, hhex⟩]
    simp only [hbytes]
    rfl
  · unfold validateSync
    rw [hexDecode_toLower hhex, hbytes]
    simp [hn]
  · rw [List.length_map, hlength]
  · intro c hc
    obtain ⟨d, hd, rfl⟩ := List.mem_map.mp hc
    have hall : ∀ n : Fin 128, isHexDigit (Char.ofNat n) = true →
        (Char.ofNat n).toLower.isDigit = true ∨ ('a' ≤ (Char.ofNat n).toLower ∧ (Char.ofNat n).toLower ≤ 'f') := by decide
    have hd := List.all_eq_true.mp hhex d hd
    have hrange := toNat_of_isHexDigit hd
    have := hall ⟨d.toNat, by omega⟩
    rw [Char.ofNat_toNat] at this
    exact this hd

/-! ## The election -/

/-- The file holds this token. -/
def World.Says (w : World) (t : List UInt8) : Prop := ∃ content, w.final = some content ∧ tokenOf content = .ok t

/-- The process has created the file and has not published the token. -/
def Proc.writes : Proc → Bool
  | .won _ | .cleared _ | .writing _ | .written _ => true
  | _ => false

section Election

variable {pid : Nat → Nat}

/-- What one operation can come to. -/
inductive Outcome (pid : Nat → Nat) (w : World) (r : Nat) : World → Prop
  | stays : Outcome pid w r w
  /-- The process creates the file. -/
  | wins (token : Vector UInt8 32) (h : w.final = none) :
    Outcome pid w r (World.goes { w with final := some [] } r (.won token))
  /-- No file changes. -/
  | moves (p : Proc) (hwrites : p.writes = false) (hpublished : ∀ token, p ≠ .published token)
    (hdone : ∀ t, p = .done (.ok t) → w.Says t ∨ ∃ token, w.procs r = .published token ∧ t = token.toList) :
    Outcome pid w r (w.goes r p)
  /-- The one that created the file works on its temporary file, or gives up. -/
  | prepares (content : Option (List Char)) (p : Proc) (h : (w.procs r).writes = true)
    (hpublished : ∀ token, p ≠ .published token) (hdone : ∀ t, p ≠ .done (.ok t))
    (hwritten : ∀ token, p = .written token → content = some (hexEncode token.toList)) :
    Outcome pid w r ((w.setTemp pid r content).goes r p)
  /-- It publishes the token. -/
  | publishes (token : Vector UInt8 32) (content : List Char) (h : w.procs r = .written token)
    (hcontent : w.temps (pid r) = some content) :
    Outcome pid w r (World.goes { w.setTemp pid r none with final := some content } r (.published token))

/-- A process that fails. -/
theorem Outcome.fails (w : World) (r : Nat) : Outcome pid w r (w.goes r (.done (.error .io))) :=
  .moves _ rfl (fun _ h => by cases h) fun _ h => by cases h

theorem Outcome.gives_up {w : World} {r : Nat} (h : (w.procs r).writes = true) :
    Outcome pid w r ((w.setTemp pid r none).goes r (.done (.error .io))) :=
  .prepares _ _ h (fun _ h => by cases h) (fun _ h => by cases h) fun _ h => by cases h

theorem setTemp_goes_self (w : World) (r : Nat) (content : Option (List Char)) :
    (w.setTemp pid r content).goes r (w.procs r) = w.setTemp pid r content := by
  unfold World.goes World.setTemp
  simp only [Function.update_eq_self]

theorem act_outcome (w : World) (r : Nat) (op : Op) : Outcome pid w r (act pid w r op) := by
  unfold act
  split
  · -- the file is created, or it is there
    split_ifs
    · split
      · rename_i hfinal
        exact .wins _ hfinal
      · exact .moves _ rfl (fun _ h => by cases h) fun _ h => by cases h
    · exact .fails w r
  · rename_i token hr
    exact .prepares _ _ (by rw [hr]; rfl) (fun _ h => by cases h) (fun _ h => by cases h) fun _ h => by cases h
  · rename_i token io hr
    split_ifs
    · exact .prepares _ _ (by rw [hr]; rfl) (fun _ h => by cases h) (fun _ h => by cases h) fun _ h => by cases h
    · exact .fails w r
  · rename_i token n hr
    have hwrites : (w.procs r).writes = true := by rw [hr]; rfl
    rw [← setTemp_goes_self]
    exact .prepares _ _ hwrites (fun _ h => by rw [hr] at h; cases h) (fun _ h => by rw [hr] at h; cases h)
      fun _ h => by rw [hr] at h; cases h
  · rename_i token io hr
    have hwrites : (w.procs r).writes = true := by rw [hr]; rfl
    split_ifs
    · exact .prepares _ _ hwrites (fun _ h => by cases h) (fun _ h => by cases h) fun _ h => by cases h; rfl
    · exact .gives_up hwrites
  · rename_i token io hr
    split
    · rename_i content hcontent
      split_ifs
      · exact .publishes _ _ hr hcontent
      · exact .gives_up (by rw [hr]; rfl)
    · exact .fails w r
  · rename_i token hr
    exact .moves _ rfl (fun _ h => by cases h) fun _ h => .inr ⟨token, hr, by cases h; rfl⟩
  · -- the file is read
    split_ifs
    · split
      · exact .fails w r
      · rename_i content hfinal
        split_ifs
        · refine .moves _ rfl (fun _ h => by cases h) fun t h => .inl ⟨content, hfinal, ?_⟩
          exact (Proc.done.inj h)
        · exact .stays
    · exact .fails w r
  · exact .stays
  · exact .moves _ rfl (fun _ h => by cases h) fun _ h => by cases h
  · exact .stays

/-- What holds between the files and the processes. -/
structure Elected (pid : Nat → Nat) (w : World) : Prop where
  got : ∀ r t, w.procs r = .done (.ok t) → w.Says t
  writer : ∀ r, (w.procs r).writes = true → w.final = some []
  alone : ∀ r r', (w.procs r).writes = true → (w.procs r').writes = true → r = r'
  ready : ∀ r token, w.procs r = .written token → w.temps (pid r) = some (hexEncode token.toList)
  published : ∀ r token, w.procs r = .published token → w.Says token.toList

theorem World.Says.unique {w : World} {t t' : List UInt8} (h : w.Says t) (h' : w.Says t') : t = t' := by
  obtain ⟨content, hfinal, ht⟩ := h
  obtain ⟨content', hfinal', ht'⟩ := h'
  rw [hfinal] at hfinal'
  cases hfinal'
  rw [ht] at ht'
  cases ht'
  rfl

theorem not_says_of_empty {w : World} (h : w.final = some []) (t : List UInt8) : ¬ w.Says t := by
  rintro ⟨content, hfinal, ht⟩
  rw [h] at hfinal
  cases hfinal
  cases ht

theorem not_says_of_none {w : World} (h : w.final = none) (t : List UInt8) : ¬ w.Says t := by
  rintro ⟨content, hfinal, -⟩
  rw [h] at hfinal
  cases hfinal

/-- **A token that is in the file stays there.** -/
theorem Elected.says_act {w : World} (h : Elected pid w) {t : List UInt8} (ht : w.Says t) (r : Nat) (op : Op) :
    (act pid w r op).Says t := by
  have hout : Outcome pid w r (Http.act pid w r op) := act_outcome w r op
  revert hout
  generalize act pid w r op = w'
  rintro (_ | ⟨token, hfinal⟩ | _ | _ | ⟨token, content, hr, hcontent⟩)
  · exact ht
  · exact (not_says_of_none hfinal t ht).elim
  · exact ht
  · exact ht
  · exact (not_says_of_empty (h.writer r (by rw [hr]; rfl)) t ht).elim

theorem procs_goes_self (w : World) (r : Nat) (p : Proc) : (w.goes r p).procs r = p := Function.update_self ..

theorem procs_goes_ne (w : World) {r r' : Nat} (h : r' ≠ r) (p : Proc) : (w.goes r p).procs r' = w.procs r' :=
  Function.update_of_ne h ..

theorem temps_setTemp_self (w : World) (r : Nat) (content : Option (List Char)) :
    (w.setTemp pid r content).temps (pid r) = content := Function.update_self ..

/-- Nobody who writes or has written is at work when there is no file. -/
theorem Elected.idle {w : World} (h : Elected pid w) (hfinal : w.final = none) (r : Nat) : (w.procs r).writes = false := by
  refine Bool.eq_false_iff.mpr fun hwrites => ?_
  rw [h.writer r hwrites] at hfinal
  cases hfinal

theorem Elected.wins {w : World} (h : Elected pid w) (hfinal : w.final = none) (r : Nat) (token : Vector UInt8 32) :
    Elected pid (World.goes { w with final := some [] } r (.won token)) where
  got r' t hr' := by
    by_cases hr : r' = r
    · subst hr
      rw [procs_goes_self] at hr'
      cases hr'
    · rw [procs_goes_ne _ hr] at hr'
      exact (not_says_of_none hfinal t (h.got r' t hr')).elim
  writer _ _ := rfl
  alone r₁ r₂ h₁ h₂ := by
    have honly {r' : Nat} (h' : ((World.goes { w with final := some [] } r (.won token)).procs r').writes = true) :
        r' = r := by
      by_contra hr
      rw [procs_goes_ne _ hr] at h'
      rw [h.idle hfinal r'] at h'
      cases h'
    exact (honly h₁).trans (honly h₂).symm
  ready r' token' hr' := by
    by_cases hr : r' = r
    · subst hr
      rw [procs_goes_self] at hr'
      cases hr'
    · rw [procs_goes_ne _ hr] at hr'
      exact h.ready r' token' hr'
  published r' token' hr' := by
    by_cases hr : r' = r
    · subst hr
      rw [procs_goes_self] at hr'
      cases hr'
    · rw [procs_goes_ne _ hr] at hr'
      exact (not_says_of_none hfinal _ (h.published r' token' hr')).elim

theorem Elected.moves {w : World} (h : Elected pid w) {r : Nat} {p : Proc} (hwrites : p.writes = false)
    (hpublished : ∀ token, p ≠ .published token)
    (hdone : ∀ t, p = .done (.ok t) → w.Says t ∨ ∃ token, w.procs r = .published token ∧ t = token.toList) :
    Elected pid (w.goes r p) where
  got r' t hr' := by
    by_cases hr : r' = r
    · subst hr
      rw [procs_goes_self] at hr'
      rcases hdone t hr' with hsays | ⟨token, hr, rfl⟩
      · exact hsays
      · exact h.published r' token hr
    · rw [procs_goes_ne _ hr] at hr'
      exact h.got r' t hr'
  writer r' hr' := by
    by_cases hr : r' = r
    · subst hr
      rw [procs_goes_self, hwrites] at hr'
      cases hr'
    · rw [procs_goes_ne _ hr] at hr'
      exact h.writer r' hr'
  alone r₁ r₂ h₁ h₂ := by
    have hbefore {r' : Nat} (h' : ((w.goes r p).procs r').writes = true) : (w.procs r').writes = true := by
      by_cases hr : r' = r
      · subst hr
        rw [procs_goes_self, hwrites] at h'
        cases h'
      · rwa [procs_goes_ne _ hr] at h'
    exact h.alone r₁ r₂ (hbefore h₁) (hbefore h₂)
  ready r' token hr' := by
    by_cases hr : r' = r
    · subst hr
      rw [procs_goes_self] at hr'
      rw [hr'] at hwrites
      cases hwrites
    · rw [procs_goes_ne _ hr] at hr'
      exact h.ready r' token hr'
  published r' token hr' := by
    by_cases hr : r' = r
    · subst hr
      rw [procs_goes_self] at hr'
      exact (hpublished token hr').elim
    · rw [procs_goes_ne _ hr] at hr'
      exact h.published r' token hr'

theorem Elected.prepares {w : World} (h : Elected pid w) {r : Nat} {content : Option (List Char)} {p : Proc}
    (hr : (w.procs r).writes = true) (hpublished : ∀ token, p ≠ .published token) (hdone : ∀ t, p ≠ .done (.ok t))
    (hwritten : ∀ token, p = .written token → content = some (hexEncode token.toList)) :
    Elected pid ((w.setTemp pid r content).goes r p) where
  got r' t hr' := by
    by_cases heq : r' = r
    · subst heq
      rw [procs_goes_self] at hr'
      exact (hdone t hr').elim
    · rw [procs_goes_ne _ heq] at hr'
      exact h.got r' t hr'
  writer _ _ := h.writer r hr
  alone r₁ r₂ h₁ h₂ := by
    have honly {r' : Nat} (h' : (((w.setTemp pid r content).goes r p).procs r').writes = true) : r' = r := by
      by_contra heq
      rw [procs_goes_ne _ heq] at h'
      exact heq (h.alone r' r h' hr)
    exact (honly h₁).trans (honly h₂).symm
  ready r' token hr' := by
    by_cases heq : r' = r
    · subst heq
      rw [procs_goes_self] at hr'
      exact (temps_setTemp_self w r' content).trans (hwritten token hr')
    · rw [procs_goes_ne _ heq] at hr'
      have hwrites : (w.procs r').writes = true := by
        rw [show w.procs r' = .written token from hr']
        rfl
      exact (heq (h.alone r' r hwrites hr)).elim
  published r' token hr' := by
    by_cases heq : r' = r
    · subst heq
      rw [procs_goes_self] at hr'
      exact (hpublished token hr').elim
    · rw [procs_goes_ne _ heq] at hr'
      exact h.published r' token hr'

theorem Elected.publishes {w : World} (h : Elected pid w) {r : Nat} {token : Vector UInt8 32} {content : List Char}
    (hr : w.procs r = .written token) (hcontent : w.temps (pid r) = some content) :
    Elected pid (World.goes { w.setTemp pid r none with final := some content } r (.published token)) := by
  obtain rfl : content = hexEncode token.toList := by
    rw [h.ready r token hr] at hcontent
    exact (Option.some.inj hcontent).symm
  have hwrites : (w.procs r).writes = true := by
    rw [hr]
    rfl
  have hempty := h.writer r hwrites
  have hothers {r' : Nat} (heq : r' ≠ r) : (w.procs r').writes = false :=
    Bool.eq_false_iff.mpr fun h' => heq (h.alone r' r h' hwrites)
  refine ⟨fun r' t hr' => ?_, fun r' hr' => ?_, fun r₁ r₂ h₁ h₂ => ?_, fun r' token' hr' => ?_, fun r' token' hr' => ?_⟩
  · by_cases heq : r' = r
    · subst heq
      rw [procs_goes_self] at hr'
      cases hr'
    · rw [procs_goes_ne _ heq] at hr'
      exact (not_says_of_empty hempty t (h.got r' t hr')).elim
  · by_cases heq : r' = r
    · subst heq
      rw [procs_goes_self] at hr'
      cases hr'
    · rw [procs_goes_ne _ heq] at hr'
      have hothers := hothers heq
      rw [show (w.procs r').writes = true from hr'] at hothers
      cases hothers
  · by_cases heq : r₁ = r
    · subst heq
      rw [procs_goes_self] at h₁
      cases h₁
    · rw [procs_goes_ne _ heq] at h₁
      have hothers := hothers heq
      rw [show (w.procs r₁).writes = true from h₁] at hothers
      cases hothers
  · by_cases heq : r' = r
    · subst heq
      rw [procs_goes_self] at hr'
      cases hr'
    · rw [procs_goes_ne _ heq] at hr'
      have hothers := hothers heq
      rw [show w.procs r' = .written token' from hr'] at hothers
      cases hothers
  · by_cases heq : r' = r
    · subst heq
      rw [procs_goes_self] at hr'
      cases hr'
      exact ⟨_, rfl, tokenOf_hexEncode token⟩
    · rw [procs_goes_ne _ heq] at hr'
      exact (not_says_of_empty hempty _ (h.published r' token' hr')).elim

theorem Elected.act {w : World} (h : Elected pid w) (r : Nat) (op : Op) : Elected pid (act pid w r op) := by
  have hout : Outcome pid w r (Http.act pid w r op) := act_outcome w r op
  revert hout
  generalize Http.act pid w r op = w'
  rintro (_ | ⟨token, hfinal⟩ | ⟨p, hwrites, hpublished, hdone⟩ | ⟨content, p, hr, hpublished, hdone, hwritten⟩ |
    ⟨token, content, hr, hcontent⟩)
  · exact h
  · exact h.wins hfinal r token
  · exact h.moves hwrites hpublished hdone
  · exact h.prepares hr hpublished hdone hwritten
  · exact h.publishes hr hcontent

/-- Nobody has begun. -/
theorem elected_start {w : World} (h : ∀ r, w.procs r = .start) : Elected pid w where
  got r t hr := by
    rw [h r] at hr
    cases hr
  writer r hr := by
    rw [h r] at hr
    cases hr
  alone r _ hr _ := by
    rw [h r] at hr
    cases hr
  ready r token hr := by
    rw [h r] at hr
    cases hr
  published r token hr := by
    rw [h r] at hr
    cases hr

/-- **All who get a token get the same one**, whatever is in the files at first, however their operations interleave
and whichever of them fail. It is the token in the file, and there it stays. -/
theorem token_agreement {w : World} (h : ∀ r, w.procs r = .start) (es : List (Nat × Op)) {r : Nat} {t : List UInt8}
    (hr : (es.foldl (electionStep pid) w).procs r = .done (.ok t)) (later : List (Nat × Op)) :
    ((es ++ later).foldl (electionStep pid) w).Says t ∧
      ∀ r' t', ((es ++ later).foldl (electionStep pid) w).procs r' = .done (.ok t') → t' = t := by
  have hstep (w : World) (e : Nat × Op) (hw : Elected pid w) : Elected pid (electionStep pid w e) := hw.act e.1 e.2
  have hmid := Runs.invariant hstep (elected_start h) es
  rw [List.foldl_append]
  generalize es.foldl (electionStep pid) w = mid at hr hmid
  have hend := Runs.invariant (fun (w : World) e (hw : Elected pid w ∧ w.Says t) =>
    ⟨hstep w e hw.1, hw.1.says_act hw.2 e.1 e.2⟩) ⟨hmid, hmid.got r t hr⟩ later
  exact ⟨hend.2, fun r' t' hr' => (hend.1.got r' t' hr').unique hend.2⟩

/-- Two processes that start together. -/
def twoBoots : List (Nat × Op) :=
  [(0, .create (Vector.replicate 32 1) true), (1, .create (Vector.replicate 32 2) true), (0, .clear),
    (0, .createTemp true), (1, .load true false), (0, .write true), (0, .rename true), (0, .finish)]

/-- Where they get from no files. -/
def booted (es : List (Nat × Op)) : World := es.foldl (electionStep id) ⟨none, fun _ => none, fun _ => .start⟩

/-- The one that creates the file publishes its token, and the other reads it. -/
theorem token_agreement_two :
    (booted (twoBoots ++ [(1, Op.load true false)])).Says (List.replicate 32 1) ∧ ∀ r (t : List UInt8),
      (booted (twoBoots ++ [(1, Op.load true false)])).procs r = .done (.ok t) → t = List.replicate 32 1 :=
  token_agreement (fun _ => rfl) twoBoots (r := 0) rfl _

end Election

end Unimatrix.Http
