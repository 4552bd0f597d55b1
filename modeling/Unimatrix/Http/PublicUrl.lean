import Unimatrix.Hook.TopicSignal
import Unimatrix.Http.Seam
import Unimatrix.Lib.Decimal
import Unimatrix.Lib.SplitOnce

/-!
# The public URL and the URLs of a slug

Model of `public_url.rs` and of `compose_route_urls` (`client_bundle.rs`). `env` is the value of `UNIMATRIX_PUBLIC_URL`, if
it is set. Warnings are left out.

* **`derivePublicUrl_again`**: the base that is derived is a normal form; derived from it, base and host stay the same.
* **`host_mem_sans`**: the host is in the certificate, unless it is the placeholder.
* **`pathOf_composeRouteUrls`**: whatever the variable says, the URLs of a slug are `https` and their paths are its routes.
-/

namespace Unimatrix.Http

open Config SplitOnce TopicSignal

/-! ## The code -/

/-- `split_once("://")`. -/
def splitScheme : List Char → Option (List Char × List Char)
  | [] => none
  | c :: cs =>
    if "://".toList.isPrefixOf (c :: cs) then some ([], cs.drop 2)
    else (splitScheme cs).map fun p => (c :: p.1, p.2)

/-- The digits of a number with an optional sign. -/
def stripPlus (s : List Char) : List Char :=
  match s with
  | '+' :: cs => cs
  | _ => s

/-- `parse().ok()`, of an unsigned type with a greatest number. -/
def parseUnsigned (max : Nat) (s : List Char) : Option Nat :=
  if stripPlus s ≠ [] ∧ (stripPlus s).all Char.isDigit ∧ Nat.ofDigitChars 10 (stripPlus s) 0 ≤ max then
    some (Nat.ofDigitChars 10 (stripPlus s) 0)
  else none

/-- `parse::<u16>().ok()`. -/
def parseU16 (s : List Char) : Option Nat := parseUnsigned 65535 s

/-- `PLACEHOLDER`. -/
def placeholderUrl : List Char := "https://<EDIT-ME>:8443".toList

/-- `PLACEHOLDER_HOST`. -/
def placeholderHost : List Char := "<EDIT-ME>".toList

/-- `LOCAL_SANS`. -/
def localSans : List (List Char) := ["localhost".toList, "127.0.0.1".toList, "0.0.0.0".toList]

/-- `DEFAULT_PORT`. -/
def defaultPort : Nat := 8443

/-- `PublicUrl`. -/
structure PublicUrl where
  baseUrl : List Char
  host : List Char
  sans : List (List Char)
  deriving DecidableEq

/-- The port behind an address in brackets. -/
def portAfter : List Char → Option Nat
  | ':' :: p => if p = [] then none else parseU16 p
  | [] => some defaultPort
  | _ => none

/-- `parse_authority`. -/
def parseAuthority (authority : List Char) : Option (List Char × List Char × Nat) :=
  match authority with
  | '[' :: rest =>
    match splitOnce ']' rest with
    | some (inner, after) =>
      if inner = [] then none else (portAfter after).map fun port => (inner, '[' :: inner ++ [']'], port)
    | none => none
  | _ =>
    match rsplitOnce ':' authority with
    | some (host, portStr) => (parseU16 portStr).map fun port => (host, host, port)
    | none => some (authority, authority, defaultPort)

/-- What ends an authority. -/
def endsAuthority (c : Char) : Bool := c == '/' || c == '?' || c == '#'

/-- The base from its host and its port. -/
def baseOf (hostInBase : List Char) (port : Nat) : List Char :=
  "https://".toList ++ hostInBase ++ ':' :: Nat.toDigits 10 port

/-- What follows the scheme, if there is one. -/
def afterScheme (input : List Char) : Option (List Char) :=
  match splitScheme input with
  | some (scheme, rest) => if scheme = [] then none else some rest
  | none => some input

/-- The authority without its userinfo. -/
def stripUserinfo (authority : List Char) : List Char := ((rsplitOnce '@' authority).map Prod.snd).getD authority

/-- `parse_public_url`, behind the scheme. -/
def parseAuthorityAndRest (authorityAndRest : List Char) : Option (List Char × List Char) :=
  let authority := authorityAndRest.takeWhile fun c => !endsAuthority c
  if authority = [] then none
  else
    match parseAuthority (stripUserinfo authority) with
    | some (host, hostInBase, port) => if host = [] then none else some (baseOf hostInBase port, host)
    | none => none

/-- `parse_public_url`. -/
def parsePublicUrl (input : List Char) : Option (List Char × List Char) :=
  (afterScheme input).bind parseAuthorityAndRest

/-- `placeholder`. -/
def placeholder : PublicUrl := ⟨placeholderUrl, placeholderHost, localSans⟩

/-- `derive_public_url`. -/
def derivePublicUrl (env : Option (List Char)) : PublicUrl :=
  match env with
  | none => placeholder
  | some raw =>
    if Words.trim isRustWhitespace raw = [] then placeholder
    else
      match parsePublicUrl (Words.trim isRustWhitespace raw) with
      | some (baseUrl, host) => ⟨baseUrl, host, if localSans.contains host then localSans else localSans ++ [host]⟩
      | none => placeholder

/-- `compose_route_urls`. -/
def composeRouteUrls (publicBase : List Char) (slug : ProjectSlug) : List Char × List Char :=
  let base := publicBase.rdropWhile (· == '/')
  (base ++ "/v1/".toList ++ slug.text.toList, base ++ "/v1/".toList ++ slug.text.toList ++ "/observe".toList)

/-! ## Ports -/

theorem toNat_of_isDigit {c : Char} (h : c.isDigit = true) : 48 ≤ c.toNat ∧ c.toNat ≤ 57 := by
  have hdigit := Bool.and_eq_true_iff.mp h
  exact ⟨of_decide_eq_true hdigit.1, of_decide_eq_true hdigit.2⟩

theorem isDigit_toDigits {n : Nat} {c : Char} (h : c ∈ Nat.toDigits 10 n) : c.isDigit = true :=
  Nat.isDigit_of_mem_toDigits (by decide) (by decide) h

theorem notMem_toDigits (n : Nat) {c : Char} (h : c.isDigit = false) : c ∉ Nat.toDigits 10 n := by
  intro hc
  rw [isDigit_toDigits hc] at h
  cases h

theorem parseU16_le {s : List Char} {port : Nat} (h : parseU16 s = some port) : port ≤ 65535 := by
  unfold parseU16 parseUnsigned at h
  split_ifs at h with hdigits
  cases h
  exact hdigits.2.2

theorem stripPlus_toDigits (n : Nat) : stripPlus (Nat.toDigits 10 n) = Nat.toDigits 10 n := by
  unfold stripPlus
  split
  · rename_i cs hcs
    exact (notMem_toDigits n (by decide) (hcs ▸ List.mem_cons_self)).elim
  · rfl

theorem parseU16_toDigits {port : Nat} (h : port ≤ 65535) : parseU16 (Nat.toDigits 10 port) = some port := by
  have hne : Nat.toDigits 10 port ≠ [] := Nat.toDigits_ne_nil
  have hall : (Nat.toDigits 10 port).all Char.isDigit := List.all_eq_true.mpr fun c hc => isDigit_toDigits hc
  have hvalue : Nat.ofDigitChars 10 (Nat.toDigits 10 port) 0 = port := Nat.ofDigitChars_ten_toDigits
  unfold parseU16 parseUnsigned
  rw [stripPlus_toDigits, hvalue, if_pos ⟨hne, hall, h⟩]

theorem portAfter_le {after : List Char} {port : Nat} (h : portAfter after = some port) : port ≤ 65535 := by
  unfold portAfter at h
  split at h
  · split_ifs at h
    exact parseU16_le h
  · cases h
    decide
  · cases h

theorem portAfter_toDigits {port : Nat} (h : port ≤ 65535) : portAfter (':' :: Nat.toDigits 10 port) = some port := by
  unfold portAfter
  exact (if_neg Nat.toDigits_ne_nil).trans (parseU16_toDigits h)

/-! ## Authorities -/

/-- What a host in a base says: it is read as it was written. -/
structure Reads (host hostInBase : List Char) (port : Nat) : Prop where
  port_le : port ≤ 65535
  ne_nil : hostInBase ≠ []
  again : parseAuthority (hostInBase ++ ':' :: Nat.toDigits 10 port) = some (host, hostInBase, port)

theorem parseAuthority_bracket {inner : List Char} (hinner : inner ≠ []) (hnot : ']' ∉ inner) {port : Nat}
    (hport : port ≤ 65535) :
    parseAuthority ('[' :: inner ++ [']'] ++ ':' :: Nat.toDigits 10 port) =
      some (inner, '[' :: inner ++ [']'], port) := by
  have hcut : splitOnce ']' (inner ++ ']' :: ':' :: Nat.toDigits 10 port) =
      some (inner, ':' :: Nat.toDigits 10 port) := splitOnce_eq_some.mpr ⟨rfl, hnot⟩
  have hshape : '[' :: inner ++ [']'] ++ ':' :: Nat.toDigits 10 port =
      '[' :: (inner ++ ']' :: ':' :: Nat.toDigits 10 port) := by
    rw [List.append_assoc]
    rfl
  rw [hshape]
  simp only [parseAuthority, hcut, if_neg hinner, portAfter_toDigits hport, Option.map_some]

theorem parseAuthority_plain {host : List Char} (hhost : host ≠ []) (hbracket : ∀ rest, host ≠ '[' :: rest) {port : Nat}
    (hport : port ≤ 65535) :
    parseAuthority (host ++ ':' :: Nat.toDigits 10 port) = some (host, host, port) := by
  have hcut : rsplitOnce ':' (host ++ ':' :: Nat.toDigits 10 port) = some (host, Nat.toDigits 10 port) :=
    rsplitOnce_eq_some.mpr ⟨rfl, notMem_toDigits port (by decide)⟩
  unfold parseAuthority
  split
  · rename_i rest hrest
    obtain ⟨c, cs, rfl⟩ := List.exists_cons_of_ne_nil hhost
    cases hrest
    exact (hbracket cs rfl).elim
  · rw [hcut]
    simp only [parseU16_toDigits hport, Option.map_some]

/-- **What an authority is read as**, is read from its normal form again. -/
theorem reads_of_parseAuthority {authority host hostInBase : List Char} {port : Nat}
    (h : parseAuthority authority = some (host, hostInBase, port)) (hhost : host ≠ []) :
    Reads host hostInBase port ∧ hostInBase ⊆ authority := by
  unfold parseAuthority at h
  split at h
  · rename_i rest
    split at h
    · rename_i inner after hcut
      obtain ⟨rfl, hnot⟩ := splitOnce_eq_some.mp hcut
      split_ifs at h with hinner
      obtain ⟨p, hp, heq⟩ := Option.map_eq_some_iff.mp h
      cases heq
      have hport := portAfter_le hp
      refine ⟨⟨hport, List.cons_ne_nil _ _, parseAuthority_bracket hinner hnot hport⟩, ?_⟩
      intro c hc
      rcases List.mem_cons.mp hc with rfl | hc
      · exact List.mem_cons_self
      · refine List.mem_cons_of_mem _ ?_
        rcases List.mem_append.mp hc with hc | hc
        · exact List.mem_append_left _ hc
        · rw [List.mem_singleton.mp hc]
          exact List.mem_append_right _ List.mem_cons_self
    · cases h
  · rename_i hbracket
    split at h
    · rename_i hostPart portStr hcut
      obtain ⟨p, hp, heq⟩ := Option.map_eq_some_iff.mp h
      cases heq
      obtain ⟨rfl, -⟩ := rsplitOnce_eq_some.mp hcut
      refine ⟨⟨parseU16_le hp, hhost, parseAuthority_plain hhost (fun rest heq => ?_) (parseU16_le hp)⟩,
        fun c hc => List.mem_append_left _ hc⟩
      subst heq
      exact hbracket _ rfl
    · cases h
      exact ⟨⟨by decide, hhost, parseAuthority_plain hhost hbracket (by decide)⟩, List.Subset.refl _⟩

/-! ## The base -/

/-- What a base consists of. -/
structure Base (baseUrl host : List Char) : Prop where
  parts : ∃ hostInBase port, baseUrl = baseOf hostInBase port ∧ Reads host hostInBase port ∧ host ≠ [] ∧
    ∀ c ∈ hostInBase, endsAuthority c = false ∧ c ≠ '@'

theorem notMem_stripUserinfo (authority : List Char) : '@' ∉ stripUserinfo authority := by
  unfold stripUserinfo
  cases hcut : rsplitOnce '@' authority with
  | none => exact rsplitOnce_eq_none.mp hcut
  | some parts => exact (rsplitOnce_eq_some.mp (show rsplitOnce '@' authority = some (parts.1, parts.2) from hcut)).2

theorem stripUserinfo_subset (authority : List Char) : stripUserinfo authority ⊆ authority := by
  unfold stripUserinfo
  cases hcut : rsplitOnce '@' authority with
  | none => exact List.Subset.refl _
  | some parts =>
    obtain ⟨hauthority, -⟩ := rsplitOnce_eq_some.mp (show rsplitOnce '@' authority = some (parts.1, parts.2) from hcut)
    intro c hc
    rw [hauthority]
    exact List.mem_append_right _ (List.mem_cons_of_mem _ hc)

theorem base_of_parsePublicUrl {input baseUrl host : List Char} (h : parsePublicUrl input = some (baseUrl, host)) :
    Base baseUrl host := by
  obtain ⟨authorityAndRest, -, h⟩ := Option.bind_eq_some_iff.mp h
  unfold parseAuthorityAndRest at h
  simp only at h
  split_ifs at h with hempty
  split at h
  · rename_i host' hostInBase port hparse
    split_ifs at h with hhost
    cases h
    obtain ⟨hreads, hsub⟩ := reads_of_parseAuthority hparse hhost
    refine ⟨hostInBase, port, rfl, hreads, hhost, fun c hc => ⟨?_, fun heq => ?_⟩⟩
    · have hends := List.mem_takeWhile_imp (p := fun c => !endsAuthority c) (stripUserinfo_subset _ (hsub hc))
      exact (Bool.not_eq_true' _).mp hends
    · exact notMem_stripUserinfo _ (heq ▸ hsub hc)
  · cases h

theorem splitScheme_https (rest : List Char) : splitScheme ("https://".toList ++ rest) = some ("https".toList, rest) :=
  rfl

/-- No character of an authority ends it. -/
theorem authority_chars {hostInBase : List Char} (port : Nat)
    (hchars : ∀ c ∈ hostInBase, endsAuthority c = false ∧ c ≠ '@') :
    ∀ c ∈ hostInBase ++ ':' :: Nat.toDigits 10 port, endsAuthority c = false ∧ c ≠ '@' := by
  have hdigit {c : Char} (hc : c ∈ Nat.toDigits 10 port) : endsAuthority c = false ∧ c ≠ '@' := by
    have hrange := toNat_of_isDigit (isDigit_toDigits hc)
    have hne : c ≠ '/' ∧ c ≠ '?' ∧ c ≠ '#' ∧ c ≠ '@' := by
      refine ⟨?_, ?_, ?_, ?_⟩ <;> rintro rfl <;> exact absurd hrange (by decide)
    refine ⟨?_, hne.2.2.2⟩
    simp only [endsAuthority, beq_eq_false_iff_ne.mpr hne.1, beq_eq_false_iff_ne.mpr hne.2.1,
      beq_eq_false_iff_ne.mpr hne.2.2.1, Bool.or_self]
  intro c hc
  rcases List.mem_append.mp hc with hc | hc
  · exact hchars c hc
  · rcases List.mem_cons.mp hc with rfl | hc
    · decide
    · exact hdigit hc

/-- **A base is read as it is.** -/
theorem Base.again {baseUrl host : List Char} (h : Base baseUrl host) :
    parsePublicUrl baseUrl = some (baseUrl, host) := by
  obtain ⟨hostInBase, port, rfl, hreads, hhost, hchars⟩ := h.parts
  have hall := authority_chars port hchars
  have hauthority : (hostInBase ++ ':' :: Nat.toDigits 10 port).takeWhile (fun c => !endsAuthority c) =
      hostInBase ++ ':' :: Nat.toDigits 10 port :=
    List.takeWhile_eq_self_iff.mpr fun c hc => by rw [(hall c hc).1]; rfl
  have hstrip : stripUserinfo (hostInBase ++ ':' :: Nat.toDigits 10 port) = hostInBase ++ ':' :: Nat.toDigits 10 port := by
    unfold stripUserinfo
    rw [rsplitOnce_eq_none.mpr fun hat => (hall _ hat).2 rfl]
    rfl
  have hafter : afterScheme (baseOf hostInBase port) = some (hostInBase ++ ':' :: Nat.toDigits 10 port) := by
    unfold afterScheme baseOf
    rw [List.append_assoc, splitScheme_https]
    rfl
  unfold parsePublicUrl
  rw [hafter, Option.bind_some]
  unfold parseAuthorityAndRest
  simp only [hauthority, hstrip, hreads.again]
  rw [if_neg (List.append_ne_nil_of_right_ne_nil _ (List.cons_ne_nil _ _)), if_neg hhost]

/-- A base begins and ends with characters that stay. -/
theorem Base.ends {baseUrl host : List Char} (h : Base baseUrl host) :
    ∃ l d, baseUrl = 'h' :: (l ++ [d]) ∧ d.isDigit = true := by
  obtain ⟨hostInBase, port, rfl, -⟩ := h.parts
  obtain ⟨ds, d, hds⟩ := (List.eq_nil_or_concat' (Nat.toDigits 10 port)).resolve_left Nat.toDigits_ne_nil
  have hd : d ∈ Nat.toDigits 10 port := by
    rw [hds]
    exact List.mem_append_right _ List.mem_cons_self
  refine ⟨"ttps://".toList ++ (hostInBase ++ ':' :: ds), d, ?_, isDigit_toDigits hd⟩
  have hscheme : "https://".toList = 'h' :: "ttps://".toList := rfl
  unfold baseOf
  rw [hds, hscheme]
  simp only [List.cons_append, List.append_assoc]

theorem Base.trim {baseUrl host : List Char} (h : Base baseUrl host) :
    Words.trim isRustWhitespace baseUrl = baseUrl := by
  obtain ⟨l, d, rfl, hd⟩ := h.ends
  refine Words.trim_ends (by decide) ?_ l
  have hrange := toNat_of_isDigit hd
  unfold isRustWhitespace isCommonWhitespace
  simp only [Bool.or_eq_false_iff, Bool.and_eq_false_iff, decide_eq_false_iff_not, beq_eq_false_iff_ne]
  omega

theorem Base.noSlash {baseUrl host : List Char} (h : Base baseUrl host) : baseUrl.rdropWhile (· == '/') = baseUrl := by
  obtain ⟨l, d, rfl, hd⟩ := h.ends
  rw [← List.cons_append]
  refine List.rdropWhile_concat_neg _ _ _ fun heq => ?_
  rw [beq_iff_eq.mp heq] at hd
  exact absurd hd (by decide)

/-! ## What is derived -/

theorem base_placeholder : Base placeholderUrl placeholderHost := by
  have hchars : placeholderHost.all (fun c => !endsAuthority c && c != '@') = true := by decide
  refine ⟨placeholderHost, 8443, by decide, ⟨by decide, by decide, ?_⟩, by decide, fun c hc => ?_⟩
  · exact parseAuthority_plain (by decide) (fun rest h => by cases h) (by decide)
  · have hc := Bool.and_eq_true_iff.mp (List.all_eq_true.mp hchars c hc)
    exact ⟨(Bool.not_eq_true' _).mp hc.1, bne_iff_ne.mp hc.2⟩

/-- Everything that is derived is the placeholder, or was parsed. -/
theorem derivePublicUrl_cases (env : Option (List Char)) : derivePublicUrl env = placeholder ∨
    ∃ baseUrl host, Base baseUrl host ∧
      derivePublicUrl env = ⟨baseUrl, host, if localSans.contains host then localSans else localSans ++ [host]⟩ := by
  unfold derivePublicUrl
  split
  · exact .inl rfl
  · split_ifs
    · exact .inl rfl
    · split
      · rename_i baseUrl host hparse
        exact .inr ⟨baseUrl, host, base_of_parsePublicUrl hparse, rfl⟩
      · exact .inl rfl

theorem base_derivePublicUrl (env : Option (List Char)) :
    Base (derivePublicUrl env).baseUrl (derivePublicUrl env).host := by
  rcases derivePublicUrl_cases env with h | ⟨baseUrl, host, hbase, h⟩
  · rw [h]
    exact base_placeholder
  · rw [h]
    exact hbase

/-- **A base that was derived is a normal form**: what is derived from it has the same base and the same host. -/
theorem derivePublicUrl_again (env : Option (List Char)) :
    (derivePublicUrl (some (derivePublicUrl env).baseUrl)).baseUrl = (derivePublicUrl env).baseUrl ∧
      (derivePublicUrl (some (derivePublicUrl env).baseUrl)).host = (derivePublicUrl env).host := by
  have hbase := base_derivePublicUrl env
  obtain ⟨l, d, hends, -⟩ := hbase.ends
  generalize derivePublicUrl env = url at hbase hends
  have hne : url.baseUrl ≠ [] := by
    rw [hends]
    exact List.cons_ne_nil _ _
  unfold derivePublicUrl
  simp only [hbase.trim, hne, if_false, hbase.again, and_self]

/-- **The host is in the certificate**, unless it is the placeholder; the local names always are. -/
theorem host_mem_sans (env : Option (List Char)) : localSans ⊆ (derivePublicUrl env).sans ∧
    ((derivePublicUrl env).host ∈ (derivePublicUrl env).sans ∨ derivePublicUrl env = placeholder) := by
  rcases derivePublicUrl_cases env with h | ⟨baseUrl, host, -, h⟩
  · rw [h]
    exact ⟨List.Subset.refl _, .inr rfl⟩
  · rw [h]
    simp only
    split_ifs with hmem
    · exact ⟨List.Subset.refl _, .inl (List.contains_iff_mem.mp hmem)⟩
    · exact ⟨List.subset_append_left _ _, .inl (List.mem_append_right _ List.mem_cons_self)⟩

/-! ## The URLs of a slug -/

/-- The path of a URL: what follows its authority. -/
def pathOf (url : List Char) : List Char :=
  match splitScheme url with
  | some (_, rest) => rest.dropWhile fun c => !endsAuthority c
  | none => []

theorem Base.pathOf {baseUrl host : List Char} (h : Base baseUrl host) (route : List Char) :
    Http.pathOf (baseUrl ++ '/' :: route) = '/' :: route := by
  obtain ⟨hostInBase, port, rfl, -, -, hchars⟩ := h.parts
  have hshape : baseOf hostInBase port ++ '/' :: route =
      "https://".toList ++ ((hostInBase ++ ':' :: Nat.toDigits 10 port) ++ '/' :: route) := by
    unfold baseOf
    simp only [List.append_assoc, List.cons_append]
  have hall : ∀ c ∈ hostInBase ++ ':' :: Nat.toDigits 10 port, (!endsAuthority c) = true := fun c hc => by
    rw [(authority_chars port hchars c hc).1]
    rfl
  unfold Http.pathOf
  rw [hshape, splitScheme_https]
  exact List.dropWhile_append_of_pos hall

/-- The URLs of a slug are its routes behind the base. -/
theorem composeRouteUrls_base {baseUrl host : List Char} (h : Base baseUrl host) (slug : ProjectSlug) :
    composeRouteUrls baseUrl slug =
      (baseUrl ++ "/v1/".toList ++ slug.text.toList, baseUrl ++ "/v1/".toList ++ slug.text.toList ++ "/observe".toList) := by
  unfold composeRouteUrls
  simp only [h.noSlash]

theorem Base.https {baseUrl host : List Char} (h : Base baseUrl host) (rest : List Char) :
    "https://".toList <+: baseUrl ++ rest := by
  obtain ⟨hostInBase, port, rfl, -⟩ := h.parts
  unfold baseOf
  rw [List.append_assoc, List.append_assoc]
  exact List.prefix_append _ _

/-- **The URLs of a slug are `https` and lead to its routes**, whatever the variable says. -/
theorem pathOf_composeRouteUrls (env : Option (List Char)) (slug : ProjectSlug) {urls : List Char × List Char}
    (h : composeRouteUrls (derivePublicUrl env).baseUrl slug = urls) :
    "https://".toList <+: urls.1 ∧ "https://".toList <+: urls.2 ∧ pathOf urls.1 = "/v1/".toList ++ slug.text.toList ∧
      pathOf urls.2 = "/v1/".toList ++ slug.text.toList ++ "/observe".toList := by
  have hbase := base_derivePublicUrl env
  rw [composeRouteUrls_base hbase] at h
  subst h
  have hversion : "/v1/".toList = '/' :: "v1/".toList := rfl
  simp only [List.append_assoc, hversion, List.cons_append]
  exact ⟨hbase.https _, hbase.https _, hbase.pathOf _, hbase.pathOf _⟩

end Unimatrix.Http
