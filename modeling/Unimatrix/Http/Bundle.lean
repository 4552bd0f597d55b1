import Mathlib.Data.Rat.Defs
import Unimatrix.Http.PublicUrl
import Unimatrix.Http.Token
import Unimatrix.Lib.Base64
import Unimatrix.Wire.Requests

/-!
# The connection bundle

Model of `encode_bundle`, `decode_bundle` and `run_client_bundle` (`client_bundle.rs`) and of `decodeBundle` (`bundle.js`).

* `fromBase64url` is `Buffer.from(body, "base64url")`, of which the only thing assumed is that it reads what is base64url.
  `stringOf` is `String(..)`. A raw bundle has no lone surrogates; the texts in it may, in JavaScript.
* The bytes of a token are its characters. The certificate is its fingerprint. Errors of the file system are left out.

**`decodeBundle_encodeBundle`**: a valid bundle is read back, or it is over the cap. **`decodeBundleJs_of_decodeBundle`**:
what Rust accepts, JavaScript accepts as the same bundle. **`runClientBundle_decodes`**: so are the bundles that the
command prints, and what they carry.
-/

namespace Unimatrix.Http

open Json Wire Config

/-! ## The code -/

/-- `BUNDLE_SCHEME`. -/
def bundleScheme : List Char := "unimatrix-bundle:".toList

/-- `MAX_RAW_LEN`. -/
def maxRawLen : Nat := 4096

/-- `Bundle`. -/
structure Bundle where
  v : UInt8
  mcpUrl : String
  observeUrl : String
  token : String
  fp : String
  deriving DecidableEq

/-- `BundleError`. -/
inductive BundleError where
  | tooLong
  | badScheme
  | badBase64
  | badJson
  | schema (reason : String)
  deriving DecidableEq

/-- What is derived for a `Bundle`. -/
def Bundle.fields (b : Bundle) : List (Text × Value) :=
  field "v" (num b.v.toNat) ++ field "mcp_url" (str b.mcpUrl) ++ field "observe_url" (str b.observeUrl) ++
    field "token" (str b.token) ++ field "fp" (str b.fp)

/-- `encode_bundle`. -/
def encodeBundle (b : Bundle) : List Char :=
  bundleScheme ++ Base64.encode (Utf8.encode (stringify (.object b.fields)))

/-- `[0-9a-f]`. -/
def isLowerHex (c : Char) : Bool := c.isDigit || (decide ('a' ≤ c) && decide (c ≤ 'f'))

/-- `is_token`. -/
def isToken (s : List Char) : Bool := decide ((Utf8.encode s).length = 64) && s.all isLowerHex

/-- `is_fingerprint`. -/
def isFingerprint (s : List Char) : Bool := "sha256:".toList.isPrefixOf s && isToken (s.drop 7)

/-- The keys of a bundle. -/
def bundleKeys : List String := ["v", "mcp_url", "observe_url", "token", "fp"]

/-- A check of `validate_schema`. -/
def check (b : Bool) (reason : String) : Except BundleError Unit := if b then .ok () else .error (.schema reason)

/-- A field that has to be there. -/
def requireField {A : Type} (read : Value → Option A) (v : Value) (name reason : String) : Except BundleError A :=
  match (v.get name).bind read with
  | some a => .ok a
  | none => .error (.schema ("'" ++ name ++ "' must be " ++ reason))

/-- `validate_schema`, of an object. -/
def validateFields (fields : List (Text × Value)) : Except BundleError Bundle := do
  check (fields.length == 5)
    ("expected exactly 5 keys (v, mcp_url, observe_url, token, fp), found " ++ toString fields.length)
  match fields.find? fun f => decide (f.1 ∉ bundleKeys.map text) with
  | some f => .error (.schema ("unexpected key '" ++ (ofText f.1).getD "" ++ "'"))
  | none =>
    let v ← requireField (asUnsigned 0xFFFFFFFFFFFFFFFF) (.object fields) "v" "an integer"
    check (v == 2) ("unsupported bundle version " ++ toString v ++
      " (expected 2); re-issue the bundle with `unimatrix client-bundle <slug>`")
    let mcpUrl ← requireField asStr (.object fields) "mcp_url" "a string"
    check ("https://".toList.isPrefixOf mcpUrl.toList) "'mcp_url' must be https://"
    let observeUrl ← requireField asStr (.object fields) "observe_url" "a string"
    check ("https://".toList.isPrefixOf observeUrl.toList) "'observe_url' must be https://"
    let token ← requireField asStr (.object fields) "token" "a string"
    check (isToken token.toList) "'token' must be 64 lowercase hex characters"
    let fp ← requireField asStr (.object fields) "fp" "a string"
    check (isFingerprint fp.toList) "'fp' must match sha256:<64 lowercase hex>"
    return ⟨2, mcpUrl, observeUrl, token, fp⟩

/-- `validate_schema`. -/
def validateSchema (value : Value) : Except BundleError Bundle :=
  match value.asObject with
  | some fields => validateFields fields
  | none => .error (.schema "payload is not a JSON object")

/-- What stands behind the scheme. -/
def bodyOf (raw : List Char) : Option (List Char) :=
  if bundleScheme.isPrefixOf raw then some (raw.drop bundleScheme.length) else none

/-- `decode_bundle`. -/
def decodeBundle (inRange : List Char → Bool) (raw : List Char) : Except BundleError Bundle :=
  if maxRawLen < (Utf8.encode raw).length then .error .tooLong
  else
    match bodyOf raw with
    | none => .error .badScheme
    | some body =>
      match Base64.decode body with
      | none => .error .badBase64
      | some bytes =>
        match (fromUtf8 bytes).bind (parse (serdeJson inRange)) with
        | none => .error .badJson
        | some value => validateSchema value

/-- `render_output`. -/
def renderOutput (blob : List Char) (mcpUrl observeUrl fp : String) : List Char × String :=
  (blob, "unimatrix connection bundle (paste into: unimatrix init --bundle <bundle>)\n" ++
    "  mcp-url     : " ++ mcpUrl ++ "\n" ++ "  observe-url : " ++ observeUrl ++ "\n" ++
    "  cert-fp     : " ++ fp ++ "\n" ++
    if "<EDIT-ME>".toList <:+: mcpUrl.toList then
      "  WARNING     : UNIMATRIX_PUBLIC_URL is unset — the URLs carry a placeholder. " ++
        "Set it and re-run before distributing this bundle.\n"
    else "")

/-- What `run_client_bundle` fails with. -/
inductive ClientBundleError where
  | slug (slugArg : String)
  | token
  | cert
  deriving DecidableEq

/-- `fingerprint_leaf_der`. -/
def fingerprintLeafDer (sha256 : Digest) (der : ByteArray) : String := "sha256:" ++ hex (sha256 der)

/-- `run_client_bundle`, with the files it reads, as far as it can read them: what goes to the two outputs. -/
def runClientBundle (sha256 : Digest) (env : Option (List Char)) (slugArg : String) (tokenFile : Option (List Char))
    (leafDer : Option ByteArray) : Except ClientBundleError (List Char × String) :=
  match ProjectSlug.tryFrom slugArg with
  | none => .error (.slug slugArg)
  | some slug =>
    match tokenFile.bind readTokenHex with
    | none => .error .token
    | some tokenHex =>
      match leafDer with
      | none => .error .cert
      | some der =>
        let fp := fingerprintLeafDer sha256 der
        let urls := composeRouteUrls (derivePublicUrl env).baseUrl slug
        let mcpUrl := String.ofList urls.1
        let observeUrl := String.ofList urls.2
        .ok (renderOutput (encodeBundle ⟨2, mcpUrl, observeUrl, String.ofList tokenHex, fp⟩) mcpUrl observeUrl fp)

/-! ### The client -/

/-- A bundle as the client has it. -/
structure JsBundle where
  mcpUrl : Text
  observeUrl : Text
  token : Text
  fp : Text
  deriving DecidableEq

/-- `JSON.parse`. -/
def jsonParse : Dialect := ⟨none, true, fun _ => true⟩

/-- The number that a JSON number says. -/
def numberValue (digits : List Char) : ℚ :=
  let unsigned := digits.dropWhile (· == '-')
  let mantissa := unsigned.takeWhile fun c => c != 'e' && c != 'E'
  let exponent := (unsigned.drop (mantissa.length + 1)).dropWhile (· == '+')
  let whole := mantissa.takeWhile (· != '.')
  let fraction := mantissa.drop (whole.length + 1)
  let power : Int := match exponent with
    | '-' :: ds => -(Nat.ofDigitChars 10 ds 0 : Int)
    | ds => Nat.ofDigitChars 10 ds 0
  let size := (Nat.ofDigitChars 10 (whole ++ fraction) 0 : ℚ) * (10 : ℚ) ^ (power - fraction.length)
  if digits.head? = some '-' then -size else size

/-- `v === 2`, of what `JSON.parse` made of a value: the nearest `number` is 2. -/
def isTwo : Value → Bool
  | .number digits => decide (2 - 1 / 2 ^ 53 ≤ numberValue digits ∧ numberValue digits ≤ 2 + 1 / 2 ^ 52)
  | _ => false

/-- `TOKEN_RE`. -/
def tokenRe (s : Text) : Bool :=
  decide (s.length = 64) && s.all fun p => match p with
    | .scalar c => isLowerHex c
    | .lone _ => false

/-- `FP_RE`. -/
def fpRe (s : Text) : Bool := (text "sha256:").isPrefixOf s && tokenRe (s.drop 7)

/-- `keysAreExactly`. -/
def keysAreExactly (keys : List Text) : Bool :=
  keys.length == bundleKeys.length && bundleKeys.all fun k => decide (text k ∈ keys)

/-- A field that has to be a string with a property. -/
def stringField (fields : List (Text × Value)) (name : String) (accepts : Text → Bool) (message : String) :
    Except String Text :=
  match ((Value.object fields).get name).bind Value.asString with
  | some s => if accepts s then .ok s else .error message
  | none => .error message

section Client

variable (fromBase64url : List Char → List UInt8) (stringOf : Option Value → String)

/-- The fifth guard of `decodeBundle`. -/
def strictSchema (fields : List (Text × Value)) : Except String JsBundle :=
  if !keysAreExactly (fields.map Prod.fst) then
    .error "bundle has unexpected fields (expected exactly v, mcp_url, observe_url, token, fp)"
  else if !((Value.object fields).get "v").any isTwo then
    .error ("unsupported bundle version: " ++ stringOf ((Value.object fields).get "v") ++
      " — re-issue a v:2 bundle with `unimatrix client-bundle <slug>`")
  else do
    let mcpUrl ← stringField fields "mcp_url" (text "https://").isPrefixOf "mcp_url must be an https URL"
    let observeUrl ← stringField fields "observe_url" (text "https://").isPrefixOf "observe_url must be an https URL"
    let token ← stringField fields "token" tokenRe "token must be 64 lowercase hex chars"
    let fp ← stringField fields "fp" fpRe "fp must be sha256:<64 hex>"
    return ⟨mcpUrl, observeUrl, token, fp⟩

/-- `decodeBundle`. -/
def decodeBundleJs (raw : List Char) : Except String JsBundle :=
  if maxRawLen < (Utf8.encode raw).length then .error "bundle too long (> 4 KB) — refusing to decode"
  else
    match bodyOf raw with
    | none => .error "not a unimatrix bundle (missing 'unimatrix-bundle:' prefix)"
    | some body =>
      let bytes := fromBase64url body
      if Base64.encode bytes ≠ body.rdropWhile (· == '=') then .error "bundle payload is not valid base64url"
      else
        match parse jsonParse (Utf8.decode bytes) with
        | none => .error "bundle payload is not valid JSON"
        | some value =>
          match value.asObject with
          | none => .error "bundle payload is not a JSON object"
          | some fields => strictSchema stringOf fields

end Client

/-! ## What is accepted -/

/-- What a bundle has to say. -/
structure Bundle.Valid (b : Bundle) : Prop where
  version : b.v = 2
  mcpUrl : "https://".toList <+: b.mcpUrl.toList
  observeUrl : "https://".toList <+: b.observeUrl.toList
  token : isToken b.token.toList = true
  fp : isFingerprint b.fp.toList = true

theorem check_eq_ok {b : Bool} {reason : String} {u : Unit} : check b reason = .ok u ↔ b = true := by
  unfold check
  split_ifs with h
  · exact iff_of_true rfl h
  · exact iff_of_false (fun h => by cases h) h

theorem requireField_eq_ok {A : Type} {read : Value → Option A} {v : Value} {name reason : String} {a : A} :
    requireField read v name reason = .ok a ↔ (v.get name).bind read = some a := by
  unfold requireField
  split
  · rename_i a' h
    rw [h]
    exact ⟨fun h => by cases h; rfl, fun h => by cases h; rfl⟩
  · rename_i h
    rw [h]
    exact iff_of_false (fun h => by cases h) fun h => by cases h

/-- What the object of a bundle looks like. -/
structure Holds (fields : List (Text × Value)) (b : Bundle) : Prop where
  length : fields.length = 5
  keys : ∀ f ∈ fields, f.1 ∈ bundleKeys.map text
  v : ((Value.object fields).get "v").bind (asUnsigned 0xFFFFFFFFFFFFFFFF) = some 2
  mcpUrl : ((Value.object fields).get "mcp_url").bind asStr = some b.mcpUrl
  observeUrl : ((Value.object fields).get "observe_url").bind asStr = some b.observeUrl
  token : ((Value.object fields).get "token").bind asStr = some b.token
  fp : ((Value.object fields).get "fp").bind asStr = some b.fp

theorem validateFields_eq_ok {fields : List (Text × Value)} {b : Bundle} :
    validateFields fields = .ok b ↔ Holds fields b ∧ b.Valid := by
  unfold validateFields
  rw [Except.bind_eq_ok]
  constructor
  · rintro ⟨_, hlength, h⟩
    have hlength := check_eq_ok.mp hlength
    split at h
    · cases h
    · rename_i hkeys
      simp only [Except.bind_eq_ok, check_eq_ok, requireField_eq_ok] at h
      obtain ⟨v, hv, _, htwo, mcpUrl, hmcp, _, hmcps, observeUrl, hobs, _, hobss, token, htoken, _, htokens, fp, hfp, _,
        hfps, h⟩ := h
      cases h
      refine ⟨⟨beq_iff_eq.mp hlength, fun f hf => ?_, beq_iff_eq.mp htwo ▸ hv, hmcp, hobs, htoken, hfp⟩,
        ⟨rfl, List.isPrefixOf_iff_prefix.mp hmcps, List.isPrefixOf_iff_prefix.mp hobss, htokens, hfps⟩⟩
      have hnot := List.find?_eq_none.mp hkeys f hf
      by_contra hf'
      exact hnot (decide_eq_true hf')
  · rintro ⟨h, hvalid⟩
    refine ⟨(), check_eq_ok.mpr (beq_iff_eq.mpr h.length), ?_⟩
    have hkeys : (fields.find? fun f => decide (f.1 ∉ bundleKeys.map text)) = none := by
      refine List.find?_eq_none.mpr fun f hf hnot => ?_
      exact of_decide_eq_true hnot (h.keys f hf)
    rw [hkeys]
    simp only [Except.bind_eq_ok, check_eq_ok, requireField_eq_ok]
    refine ⟨2, h.v, (), rfl, b.mcpUrl, h.mcpUrl, (), List.isPrefixOf_iff_prefix.mpr hvalid.mcpUrl, b.observeUrl,
      h.observeUrl, (), List.isPrefixOf_iff_prefix.mpr hvalid.observeUrl, b.token, h.token, (), hvalid.token, b.fp, h.fp,
      (), hvalid.fp, ?_⟩
    obtain ⟨v, mcpUrl, observeUrl, token, fp⟩ := b
    obtain rfl : v = 2 := hvalid.version
    rfl

/-- **What `decode_bundle` accepts.** -/
theorem decodeBundle_eq_ok {inRange : List Char → Bool} {raw : List Char} {b : Bundle} :
    decodeBundle inRange raw = .ok b ↔ (Utf8.encode raw).length ≤ maxRawLen ∧ ∃ cs fields,
      raw = bundleScheme ++ Base64.encode (Utf8.encode cs) ∧ parse (serdeJson inRange) cs = some (.object fields) ∧
        Holds fields b ∧ b.Valid := by
  have hbody {body : List Char} : bodyOf raw = some body ↔ raw = bundleScheme ++ body := by
    unfold bodyOf
    split_ifs with h
    · obtain ⟨rest, rfl⟩ := List.isPrefixOf_iff_prefix.mp h
      rw [List.drop_left, Option.some.injEq, List.append_right_inj]
    · refine iff_of_false (fun h => by cases h) ?_
      rintro rfl
      exact h (List.isPrefixOf_iff_prefix.mpr (List.prefix_append _ _))
  have hutf {bytes : List UInt8} {cs : List Char} : fromUtf8 bytes = some cs ↔ bytes = Utf8.encode cs := by
    constructor
    · intro h
      unfold fromUtf8 at h
      split_ifs at h with henc
      cases h
      exact henc.symm
    · rintro rfl
      exact fromUtf8_encode cs
  unfold decodeBundle
  split_ifs with hlen
  · exact iff_of_false (fun h => by cases h) fun h => absurd h.1 (not_le.mpr hlen)
  · have hlen := not_lt.mp hlen
    constructor
    · intro h
      split at h
      · cases h
      · rename_i body hraw
        split at h
        · cases h
        · rename_i bytes hbytes
          split at h
          · cases h
          · rename_i value hvalue
            obtain ⟨cs, hcs, hparse⟩ := Option.bind_eq_some_iff.mp hvalue
            unfold validateSchema at h
            split at h
            · rename_i fields hfields
              have hobject : value = .object fields := by
                cases value <;> cases hfields
                rfl
              subst hobject
              refine ⟨hlen, cs, fields, ?_, hparse, validateFields_eq_ok.mp h⟩
              rw [hbody.mp hraw, Base64.decode_eq_some_iff.mp hbytes, hutf.mp hcs]
            · cases h
    · rintro ⟨-, cs, fields, hraw, hparse, hholds, hvalid⟩
      have hvalue : (fromUtf8 (Utf8.encode cs)).bind (parse (serdeJson inRange)) = some (.object fields) := by
        rw [fromUtf8_encode, Option.bind_some, hparse]
      simp only [hbody.mpr hraw, Base64.decode_encode, hvalue]
      exact validateFields_eq_ok.mpr ⟨hholds, hvalid⟩

/-! ## There and back -/

theorem holds_fields {b : Bundle} (hb : b.Valid) : Holds b.fields b where
  length := rfl
  keys := by
    intro f hf
    exact (List.mem_map_of_mem hf : f.1 ∈ b.fields.map Prod.fst)
  v := by
    simp only [Bundle.fields, List.append_assoc, get_field_append, if_true, Option.bind_some, hb.version]
    exact asUnsigned_num (by decide)
  mcpUrl := by
    simp [Bundle.fields, List.append_assoc]
  observeUrl := by
    simp [Bundle.fields, List.append_assoc]
  token := by
    simp [Bundle.fields, List.append_assoc]
  fp := by
    simp [Bundle.fields, List.append_assoc]

theorem writable_bundle {inRange : List Char → Bool} (hrange : inRange ['2'] = true) {b : Bundle} (hb : b.Valid) :
    (Value.object b.fields).Writable (serdeJson inRange) 0 := by
  have hv : (num b.v.toNat).Writable (serdeJson inRange) 1 := by
    rw [hb.version]
    exact ⟨isNumber_toDigits 2, hrange⟩
  exact (((((named_field "v" hv).append (named_field "mcp_url" (writable_str _))).append
    (named_field "observe_url" (writable_str _))).append (named_field "token" (writable_str _))).append
    (named_field "fp" (writable_str _))).object (shallow (by decide)) (by decide)

/-- **A valid bundle is read back**, unless it is over the cap. -/
theorem decodeBundle_encodeBundle {inRange : List Char → Bool} (hrange : inRange ['2'] = true) {b : Bundle}
    (hb : b.Valid) :
    decodeBundle inRange (encodeBundle b) =
      if (Utf8.encode (encodeBundle b)).length ≤ maxRawLen then .ok b else .error .tooLong := by
  split_ifs with hlen
  · have hparse := parse_stringify (writable_bundle hrange hb)
    exact decodeBundle_eq_ok.mpr ⟨hlen, _, b.fields, rfl, hparse, holds_fields hb, hb⟩
  · unfold decodeBundle
    rw [if_pos (not_le.mp hlen)]

/-- A bundle of zeros. -/
def zeroBundle : Bundle :=
  ⟨2, "https://<EDIT-ME>:8443/v1/a", "https://<EDIT-ME>:8443/v1/a/observe", String.ofList (List.replicate 64 '0'),
    String.ofList ("sha256:".toList ++ List.replicate 64 '0')⟩

theorem valid_zeroBundle : zeroBundle.Valid where
  version := rfl
  mcpUrl := by decide
  observeUrl := by decide
  token := by decide
  fp := by decide

theorem decodeBundle_encodeBundle_zero : decodeBundle (fun _ => true) (encodeBundle zeroBundle) =
    if (Utf8.encode (encodeBundle zeroBundle)).length ≤ maxRawLen then .ok zeroBundle else .error .tooLong :=
  decodeBundle_encodeBundle rfl valid_zeroBundle

/-! ## The client accepts what the server accepts -/

/-- The bundle as the client has it. -/
def Bundle.js (b : Bundle) : JsBundle := ⟨text b.mcpUrl, text b.observeUrl, text b.token, text b.fp⟩

theorem jsonParse_extends (inRange : List Char → Bool) : jsonParse.Extends (serdeJson inRange) where
  depth _ _ := rfl
  lone _ := rfl
  range _ _ := rfl

theorem not_isDigit_cases {c : Char} (h : c.isDigit = true) :
    (c == '-') = false ∧ (c != 'e' && c != 'E') = true ∧ (c != '.') = true := by
  have hne {d : Char} (hd : d.isDigit = false) : c ≠ d := fun heq => by
    rw [heq, hd] at h
    cases h
  refine ⟨beq_eq_false_iff_ne.mpr (hne rfl), ?_, bne_iff_ne.mpr (hne rfl)⟩
  rw [bne_iff_ne.mpr (hne (d := 'e') rfl), bne_iff_ne.mpr (hne (d := 'E') rfl)]
  rfl

/-- Digits alone are what they say. -/
theorem numberValue_digits {digits : List Char} (h : digits.all Char.isDigit = true) :
    numberValue digits = Nat.ofDigitChars 10 digits 0 := by
  have hall := List.all_eq_true.mp h
  have hunsigned : digits.dropWhile (· == '-') = digits := by
    cases digits with
    | nil => rfl
    | cons c cs =>
      refine List.dropWhile_cons_of_neg (p := (· == '-')) ?_
      rw [(not_isDigit_cases (hall c List.mem_cons_self)).1]
      exact Bool.false_ne_true
  have hmantissa : (digits.takeWhile fun c => c != 'e' && c != 'E') = digits :=
    List.takeWhile_eq_self_iff.mpr fun c hc => (not_isDigit_cases (hall c hc)).2.1
  have hwhole : digits.takeWhile (· != '.') = digits :=
    List.takeWhile_eq_self_iff.mpr fun c hc => (not_isDigit_cases (hall c hc)).2.2
  have hhead : digits.head? ≠ some '-' := by
    intro hhead
    have := (not_isDigit_cases (hall _ (List.mem_of_head? hhead))).1
    cases this
  have hdrop : digits.drop (digits.length + 1) = [] := List.drop_eq_nil_of_le (Nat.le_succ _)
  unfold numberValue
  simp only [hunsigned, hmantissa, hwhole, hdrop, if_neg hhead, List.append_nil, List.dropWhile_nil,
    Nat.ofDigitChars_nil, List.length_nil, Nat.cast_zero, sub_zero, zpow_zero, mul_one]

theorem isTwo_of_asUnsigned {max : Nat} {value : Value} (h : asUnsigned max value = some 2) : isTwo value = true := by
  cases value with
  | number digits =>
    simp only [asUnsigned] at h
    split_ifs at h with hdigits
    have htwo := Option.some.inj h
    have hvalue := numberValue_digits (Bool.and_eq_true_iff.mp hdigits).1
    rw [htwo] at hvalue
    refine decide_eq_true ?_
    rw [hvalue]
    norm_num
  | _ => cases h

theorem map_isPrefixOf {a b : List Char} (h : a <+: b) :
    (a.map CodePoint.scalar).isPrefixOf (b.map CodePoint.scalar) = true :=
  List.isPrefixOf_iff_prefix.mpr (h.map _)

theorem toNat_of_isLowerHex {c : Char} (h : isLowerHex c = true) : 48 ≤ c.toNat ∧ c.toNat ≤ 102 := by
  unfold isLowerHex at h
  rcases Bool.or_eq_true_iff.mp h with h | h
  · have := toNat_of_isDigit h
    omega
  · have hge : 'a'.toNat ≤ c.toNat := of_decide_eq_true (Bool.and_eq_true_iff.mp h).1
    have hle : c.toNat ≤ 'f'.toNat := of_decide_eq_true (Bool.and_eq_true_iff.mp h).2
    exact ⟨le_trans (by decide) hge, hle⟩

theorem ascii_of_isLowerHex {c : Char} (h : isLowerHex c = true) : c.toNat < 0x80 :=
  (toNat_of_isLowerHex h).2.trans_lt (by decide)

theorem tokenRe_of_isToken {s : List Char} (h : isToken s = true) : tokenRe (s.map .scalar) = true := by
  obtain ⟨hlen, hall⟩ := Bool.and_eq_true_iff.mp h
  have hall := List.all_eq_true.mp hall
  have hlength : s.length = 64 := by
    rw [← of_decide_eq_true hlen, Utf8.length_encode_ascii fun c hc => ascii_of_isLowerHex (hall c hc)]
  refine Bool.and_eq_true_iff.mpr ⟨decide_eq_true (by rw [List.length_map, hlength]), List.all_eq_true.mpr ?_⟩
  intro p hp
  obtain ⟨c, hc, rfl⟩ := List.mem_map.mp hp
  exact hall c hc

theorem fpRe_of_isFingerprint {s : List Char} (h : isFingerprint s = true) : fpRe (s.map .scalar) = true := by
  obtain ⟨hscheme, htoken⟩ := Bool.and_eq_true_iff.mp h
  refine Bool.and_eq_true_iff.mpr ⟨map_isPrefixOf (List.isPrefixOf_iff_prefix.mp hscheme), ?_⟩
  rw [← List.map_drop]
  exact tokenRe_of_isToken htoken

theorem stringField_of_asStr {fields : List (Text × Value)} {name : String} {s : String} {accepts : Text → Bool}
    (h : ((Value.object fields).get name).bind asStr = some s) (haccepts : accepts (text s) = true) (message : String) :
    stringField fields name accepts message = .ok (text s) := by
  obtain ⟨value, hget, hvalue⟩ := Option.bind_eq_some_iff.mp h
  have hstring : (((Value.object fields).get name).bind Value.asString) = some (text s) := by
    rw [hget, eq_str_of_asStr hvalue]
    rfl
  unfold stringField
  simp only [hstring, haccepts, if_true]

theorem Holds.keysAreExactly {fields : List (Text × Value)} {b : Bundle} (h : Holds fields b) :
    Http.keysAreExactly (fields.map Prod.fst) = true := by
  have hmem {A : Type} {read : Value → Option A} {name : String} {a : A}
      (hget : ((Value.object fields).get name).bind read = some a) : decide (text name ∈ fields.map Prod.fst) = true := by
    obtain ⟨value, hget, -⟩ := Option.bind_eq_some_iff.mp hget
    change (fields.find? fun f => f.1 = text name).map Prod.snd = some value at hget
    obtain ⟨f, hf, -⟩ := Option.map_eq_some_iff.mp hget
    have hname := of_decide_eq_true (List.find?_some (p := fun f : Text × Value => decide (f.1 = text name)) hf)
    exact decide_eq_true (hname ▸ List.mem_map_of_mem (List.mem_of_find?_eq_some hf))
  unfold Http.keysAreExactly
  rw [List.length_map, h.length]
  simp only [bundleKeys, List.all_cons, hmem h.v, hmem h.mcpUrl, hmem h.observeUrl, hmem h.token, hmem h.fp, List.all_nil,
    Bool.and_self, Bool.and_true]
  rfl

theorem strictSchema_of_holds {fields : List (Text × Value)} {b : Bundle} (h : Holds fields b) (hb : b.Valid)
    (stringOf : Option Value → String) : strictSchema stringOf fields = .ok b.js := by
  have htwo : ((Value.object fields).get "v").any isTwo = true := by
    obtain ⟨value, hget, hvalue⟩ := Option.bind_eq_some_iff.mp h.v
    rw [hget]
    exact isTwo_of_asUnsigned hvalue
  have hhttps {s : String} (hs : "https://".toList <+: s.toList) : (text "https://").isPrefixOf (text s) = true :=
    map_isPrefixOf hs
  unfold strictSchema
  rw [h.keysAreExactly, htwo, stringField_of_asStr h.mcpUrl (hhttps hb.mcpUrl),
    stringField_of_asStr h.observeUrl (hhttps hb.observeUrl), stringField_of_asStr h.token (tokenRe_of_isToken hb.token),
    stringField_of_asStr h.fp (fpRe_of_isFingerprint hb.fp)]
  rfl

theorem rdropWhile_encode (bytes : List UInt8) :
    (Base64.encode bytes).rdropWhile (· == '=') = Base64.encode bytes := by
  refine List.rdropWhile_eq_self_iff.mpr fun hne hlast => ?_
  have hmem := Base64.mem_encode (List.getLast_mem hne)
  rw [beq_iff_eq.mp hlast] at hmem
  exact absurd hmem (by decide)

theorem decodeBundleJs_of_holds {fromBase64url : List Char → List UInt8}
    (hnode : ∀ bytes, fromBase64url (Base64.encode bytes) = bytes) (stringOf : Option Value → String)
    {inRange : List Char → Bool} {cs : List Char} {fields : List (Text × Value)} {b : Bundle}
    (hlen : (Utf8.encode (bundleScheme ++ Base64.encode (Utf8.encode cs))).length ≤ maxRawLen)
    (hparse : parse (serdeJson inRange) cs = some (.object fields)) (hholds : Holds fields b) (hb : b.Valid) :
    decodeBundleJs fromBase64url stringOf (bundleScheme ++ Base64.encode (Utf8.encode cs)) = .ok b.js := by
  have hbody : bodyOf (bundleScheme ++ Base64.encode (Utf8.encode cs)) = some (Base64.encode (Utf8.encode cs)) := by
    unfold bodyOf
    rw [if_pos (List.isPrefixOf_iff_prefix.mpr (List.prefix_append _ _)), List.drop_left]
  unfold decodeBundleJs
  rw [if_neg (not_lt.mpr hlen)]
  simp only [hbody, hnode, rdropWhile_encode, ne_eq, not_true_eq_false, if_false, Utf8.decode_encode,
    (jsonParse_extends inRange).parse hparse, Value.asObject]
  exact strictSchema_of_holds hholds hb stringOf

/-- **A bundle that the server accepts, the client accepts**, as the same bundle. -/
theorem decodeBundleJs_of_decodeBundle {fromBase64url : List Char → List UInt8}
    (hnode : ∀ bytes, fromBase64url (Base64.encode bytes) = bytes) (stringOf : Option Value → String)
    {inRange : List Char → Bool} {raw : List Char} {b : Bundle} (h : decodeBundle inRange raw = .ok b) :
    decodeBundleJs fromBase64url stringOf raw = .ok b.js := by
  obtain ⟨hlen, cs, fields, rfl, hparse, hholds, hb⟩ := decodeBundle_eq_ok.mp h
  exact decodeBundleJs_of_holds hnode stringOf hlen hparse hholds hb

theorem decodeBundle_zero : decodeBundle (fun _ => true) (encodeBundle zeroBundle) = .ok zeroBundle :=
  decodeBundle_eq_ok.mpr ⟨by decide +kernel, _, zeroBundle.fields, rfl, parse_stringify (writable_bundle rfl valid_zeroBundle),
    holds_fields valid_zeroBundle, valid_zeroBundle⟩

theorem decodeBundleJs_zero : decodeBundleJs (fun cs => (Base64.decode cs).getD []) (fun _ => "")
    (encodeBundle zeroBundle) = .ok zeroBundle.js :=
  decodeBundleJs_of_decodeBundle (fun bytes => by rw [Base64.decode_encode]; rfl) _ decodeBundle_zero

/-! ## The bundles that are printed -/

/-- What `run_client_bundle` puts into a bundle. -/
structure Issued (sha256 : Digest) (slug : ProjectSlug) (content : List Char) (der : ByteArray) (b : Bundle) : Prop where
  valid : b.Valid
  mcpUrl : pathOf b.mcpUrl.toList = "/v1/".toList ++ slug.text.toList
  observeUrl : pathOf b.observeUrl.toList = "/v1/".toList ++ slug.text.toList ++ "/observe".toList
  token : ∃ token : Vector UInt8 32, tokenOf content = .ok token.toList ∧ validateSync token b.token.toList = true
  fp : b.fp = fingerprintLeafDer sha256 der

theorem isToken_of_lowerHex {s : List Char} (hlen : s.length = 64) (h : ∀ c ∈ s, isLowerHex c = true) :
    isToken s = true := by
  refine Bool.and_eq_true_iff.mpr ⟨decide_eq_true ?_, List.all_eq_true.mpr h⟩
  rw [Utf8.length_encode_ascii fun c hc => ascii_of_isLowerHex (h c hc), hlen]

theorem isLowerHex_digitChar : ∀ k : Fin 16, isLowerHex (Nat.digitChar k) = true := by decide

theorem isFingerprint_fingerprintLeafDer (sha256 : Digest) (der : ByteArray) :
    isFingerprint (fingerprintLeafDer sha256 der).toList = true := by
  have hlist : (fingerprintLeafDer sha256 der).toList = "sha256:".toList ++ hexEncode (sha256 der).toList := by
    unfold fingerprintLeafDer hex hexEncode
    rw [String.toList_append, String.toList_ofList (l := (sha256 der).toList.flatMap hexByte)]
  have hseven : "sha256:".toList.length = 7 := rfl
  rw [hlist]
  refine Bool.and_eq_true_iff.mpr ⟨List.isPrefixOf_iff_prefix.mpr (List.prefix_append _ _), ?_⟩
  rw [← hseven, List.drop_left]
  refine isToken_of_lowerHex ?_ fun c hc => ?_
  · rw [length_hexEncode, Vector.length_toList]
  · obtain ⟨b, -, hc⟩ := List.mem_flatMap.mp hc
    have hb := b.toNat_lt
    rcases List.mem_cons.mp hc with rfl | hc
    · exact isLowerHex_digitChar ⟨b.toNat / 16, by omega⟩
    · rw [List.mem_singleton.mp hc]
      exact isLowerHex_digitChar ⟨b.toNat % 16, by omega⟩

theorem runClientBundle_eq_ok {sha256 : Digest} {env : Option (List Char)} {slugArg : String}
    {tokenFile : Option (List Char)} {leafDer : Option ByteArray} {out : List Char × String}
    (h : runClientBundle sha256 env slugArg tokenFile leafDer = .ok out) : ∃ slug content der b,
      slugArg = slug.text ∧ tokenFile = some content ∧ leafDer = some der ∧ out.1 = encodeBundle b ∧
        Issued sha256 slug content der b := by
  unfold runClientBundle at h
  split at h
  · cases h
  rename_i slug hslug
  split at h
  · cases h
  rename_i token htoken
  split at h
  · cases h
  rename_i der
  obtain ⟨content, rfl, hread⟩ := Option.bind_eq_some_iff.mp htoken
  obtain ⟨held, hheld, haccepts, hlen, hhex⟩ := readTokenHex_spec hread
  obtain ⟨hmcps, hobss, hmcp, hobs⟩ := pathOf_composeRouteUrls env slug rfl
  have htoList (l : List Char) : l = (String.ofList l).toList := String.toList_ofList.symm
  rw [htoList (composeRouteUrls (derivePublicUrl env).baseUrl slug).1] at hmcps hmcp
  rw [htoList (composeRouteUrls (derivePublicUrl env).baseUrl slug).2] at hobss hobs
  have htoken : isToken token = true := isToken_of_lowerHex hlen fun c hc => Bool.or_eq_true_iff.mpr <|
    (hhex c hc).imp id fun hc => Bool.and_eq_true_iff.mpr ⟨decide_eq_true hc.1, decide_eq_true hc.2⟩
  rw [htoList token] at haccepts htoken
  have hout := (Except.ok.inj h).symm
  exact ⟨slug, content, der, _, tryFrom_eq_some.mp hslug, rfl, rfl, congrArg Prod.fst hout,
    ⟨rfl, hmcps, hobss, htoken, isFingerprint_fingerprintLeafDer sha256 der⟩, hmcp, hobs, ⟨held, hheld, haccepts⟩, rfl⟩

/-- **What `run_client_bundle` prints, the server and the client decode**, unless it is over the cap: to URLs that lead to
the slug, a token that the server accepts, and the fingerprint of the certificate. -/
theorem runClientBundle_decodes {sha256 : Digest} {env : Option (List Char)} {slugArg : String}
    {tokenFile : Option (List Char)} {leafDer : Option ByteArray} {out : List Char × String}
    (h : runClientBundle sha256 env slugArg tokenFile leafDer = .ok out)
    (hlen : (Utf8.encode out.1).length ≤ maxRawLen) {inRange : List Char → Bool} (hrange : inRange ['2'] = true)
    {fromBase64url : List Char → List UInt8} (hnode : ∀ bytes, fromBase64url (Base64.encode bytes) = bytes)
    (stringOf : Option Value → String) : ∃ slug content der b, slugArg = slug.text ∧ tokenFile = some content ∧
      leafDer = some der ∧ Issued sha256 slug content der b ∧ decodeBundle inRange out.1 = .ok b ∧
        decodeBundleJs fromBase64url stringOf out.1 = .ok b.js := by
  obtain ⟨slug, content, der, b, hslug, hcontent, hder, hout, hissued⟩ := runClientBundle_eq_ok h
  rw [hout] at hlen ⊢
  have hparse := parse_stringify (writable_bundle hrange hissued.valid)
  have hholds := holds_fields hissued.valid
  exact ⟨slug, content, der, b, hslug, hcontent, hder, hissued,
    decodeBundle_eq_ok.mpr ⟨hlen, _, b.fields, rfl, hparse, hholds, hissued.valid⟩,
    decodeBundleJs_of_holds hnode stringOf hlen hparse hholds hissued.valid⟩

end Unimatrix.Http
