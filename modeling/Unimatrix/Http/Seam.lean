import Unimatrix.Config.Validate
import Unimatrix.Lib.HashMap
import Unimatrix.Lib.Words

/-!
# Slugs, routes and the resolver

Model of `parse_project_key` (`seam.rs`) and of `MultiProjectRouter` (`project_resolver.rs`).

* A path is a list of characters.
* The parts of a server are parameters: a store, a session registry, a buffer of pending entries and a service layer.
  `Arc::clone` hands out the part itself. Origins and hosts are left to `rmcp`.

**`parseProjectKey_eq_ok`**: which paths name which slug. **`validateProjectsConfig_eq_ok`**: which slugs a configuration
has. **`lookup_fromServers`**: a slug resolves to what was built from its own input and to nothing else.
-/

namespace Unimatrix.Http

open Config

/-! ## The code -/

deriving instance DecidableEq for ProjectSlug

/-- `RouteError`. -/
inductive RouteError where
  | unknownProject
  | invalidSlug (s : List Char)
  deriving DecidableEq

/-- `ProjectKey`. -/
inductive ProjectKey where
  | slug (s : ProjectSlug)
  deriving DecidableEq

/-- `parse_project_key`. -/
def parseProjectKey (path : List Char) : Except RouteError ProjectKey :=
  match (path.dropWhile (· == '/')).splitOn '/' with
  | version :: maybeSlug :: _ =>
    if version = "v1".toList then
      match ProjectSlug.tryFrom (String.ofList maybeSlug) with
      | some slug => .ok (.slug slug)
      | none => .error (.invalidSlug maybeSlug)
    else .error .unknownProject
  | _ => .error .unknownProject

/-- What the seam uses of a `UnimatrixServer`. -/
structure UnimatrixServer (Store Registry Pending Services : Type) where
  store : Store
  sessionRegistry : Registry
  pendingEntriesAnalysis : Pending
  services : Services

/-- `ProjectServerInput`. -/
structure ProjectServerInput (Store Registry Pending Services : Type) where
  slug : ProjectSlug
  store : Store
  server : UnimatrixServer Store Registry Pending Services

/-- `McpAdapter`. -/
structure McpAdapter (Store Registry Pending Services : Type) where
  streamable : UnimatrixServer Store Registry Pending Services
  maxBodyBytes : Nat
  store : Store

/-- `ProjectEntry`. -/
structure ProjectEntry (Store Registry Pending Services : Type) where
  store : Store
  adapter : McpAdapter Store Registry Pending Services
  sessionRegistry : Registry
  pendingEntriesAnalysis : Pending
  services : Services

section Resolver

variable {Store Registry Pending Services : Type}

/-- `ProjectEntry::from_server`. -/
def ProjectEntry.fromServer (store : Store) (server : UnimatrixServer Store Registry Pending Services)
    (maxBodyBytes : Nat) : ProjectEntry Store Registry Pending Services :=
  ⟨store, ⟨server, maxBodyBytes, server.store⟩, server.sessionRegistry, server.pendingEntriesAnalysis, server.services⟩

/-- `MultiProjectRouter`. -/
structure MultiProjectRouter (Store Registry Pending Services : Type) where
  slugs : HashMap ProjectSlug (ProjectEntry Store Registry Pending Services)

/-- One input of `from_servers`. -/
def addServer (maxBodyBytes : Nat) (slugs : HashMap ProjectSlug (ProjectEntry Store Registry Pending Services))
    (input : ProjectServerInput Store Registry Pending Services) :
    Except (List Char) (HashMap ProjectSlug (ProjectEntry Store Registry Pending Services)) :=
  if (slugs.lookup input.slug).isSome then .error ("duplicate slug entry: ".toList ++ input.slug.text.toList)
  else .ok (slugs.insert input.slug (ProjectEntry.fromServer input.store input.server maxBodyBytes))

/-- `MultiProjectRouter::from_servers`. -/
def MultiProjectRouter.fromServers (slugServers : List (ProjectServerInput Store Registry Pending Services))
    (maxBodyBytes : Nat) : Except (List Char) (MultiProjectRouter Store Registry Pending Services) :=
  (slugServers.foldlM (addServer maxBodyBytes) ∅).map fun slugs => ⟨slugs⟩

namespace MultiProjectRouter

variable (router : MultiProjectRouter Store Registry Pending Services)

/-- What the five look-ups have in common. -/
def entryFor : ProjectKey → Option (ProjectEntry Store Registry Pending Services)
  | .slug s => router.slugs.lookup s

/-- A part of the entry, or `UnknownProject`. -/
def partFor {A : Type} (part : ProjectEntry Store Registry Pending Services → A) (key : ProjectKey) :
    Except RouteError A :=
  match router.entryFor key with
  | some entry => .ok (part entry)
  | none => .error .unknownProject

/-- `resolve_store`. -/
def resolveStore (key : ProjectKey) : Except RouteError Store := router.partFor ProjectEntry.store key

/-- `adapter_for`. -/
def adapterFor (key : ProjectKey) : Option (McpAdapter Store Registry Pending Services) :=
  (router.entryFor key).map ProjectEntry.adapter

/-- `registry_for`. -/
def registryFor (key : ProjectKey) : Except RouteError Registry := router.partFor ProjectEntry.sessionRegistry key

/-- `pending_for`. -/
def pendingFor (key : ProjectKey) : Except RouteError Pending :=
  router.partFor ProjectEntry.pendingEntriesAnalysis key

/-- `services_for`. -/
def servicesFor (key : ProjectKey) : Except RouteError Services := router.partFor ProjectEntry.services key

end MultiProjectRouter

end Resolver

/-! ## Slugs -/

theorem slug_ext {s t : ProjectSlug} (h : s.text = t.text) : s = t := by
  cases s
  cases t
  cases h
  rfl

theorem tryFrom_eq_some {s : String} {slug : ProjectSlug} : ProjectSlug.tryFrom s = some slug ↔ s = slug.text := by
  unfold ProjectSlug.tryFrom
  split
  · rename_i h
    constructor
    · intro heq
      cases heq
      rfl
    · rintro rfl
      rfl
  · rename_i h
    refine iff_of_false (fun heq => by cases heq) ?_
    rintro rfl
    exact h slug.valid

/-- The characters of a slug. -/
def isSlugChar (c : Char) : Bool := c.isLower || c.isDigit || c == '-'

theorem isSlugChar_of_mem {slug : ProjectSlug} {c : Char} (hc : c ∈ slug.text.toList) : isSlugChar c = true := by
  have hvalid := slug.valid
  unfold isSlug at hvalid
  split at hvalid
  · cases hvalid
  · rename_i d ds htext
    rw [htext] at hc
    obtain ⟨hd, hds⟩ := Bool.and_eq_true_iff.mp hvalid
    rcases List.mem_cons.mp hc with rfl | hc
    · unfold isSlugChar
      rw [(Bool.and_eq_true_iff.mp hd).2, Bool.true_or]
    · exact List.all_eq_true.mp hds c hc

theorem notMem_slug (slug : ProjectSlug) {c : Char} (h : isSlugChar c = false) : c ∉ slug.text.toList := by
  intro hc
  have := isSlugChar_of_mem hc
  rw [h] at this
  exact Bool.false_ne_true this

/-! ## Routes -/

/-- What ends a segment of a path. -/
def EndsSegment (rest : List Char) : Prop := rest = [] ∨ ∃ more, rest = '/' :: more

theorem splitOn_cons_iff {l w : List Char} {ws : List (List Char)} :
    l.splitOn '/' = w :: ws ↔ '/' ∉ w ∧ ((l = w ∧ ws = []) ∨ ∃ more, l = w ++ '/' :: more ∧ more.splitOn '/' = ws) := by
  rcases Words.first_separator (· == '/') l with hl | ⟨a, s, b, rfl, hs, ha⟩
  · have hnot : '/' ∉ l := fun h => by
      have := hl _ h
      cases this
    rw [List.splitOn_eq_singleton hnot]
    constructor
    · intro h
      cases h
      exact ⟨hnot, .inl ⟨rfl, rfl⟩⟩
    · rintro ⟨-, ⟨rfl, rfl⟩ | ⟨more, rfl, -⟩⟩
      · rfl
      · exact (hnot (List.mem_append_right _ List.mem_cons_self)).elim
  · obtain rfl : s = '/' := eq_of_beq hs
    have hnot : '/' ∉ a := fun h => by
      have := ha _ h
      cases this
    rw [List.splitOn_append_cons_self_of_not_mem hnot]
    constructor
    · intro h
      cases h
      exact ⟨hnot, .inr ⟨b, rfl, rfl⟩⟩
    · rintro ⟨hw, ⟨rfl, -⟩ | ⟨more, heq, rfl⟩⟩
      · exact (hw (List.mem_append_right _ List.mem_cons_self)).elim
      · have hsplit : (w ++ '/' :: more).splitOn '/' = w :: more.splitOn '/' :=
          List.splitOn_append_cons_self_of_not_mem hw more
        rw [← heq, List.splitOn_append_cons_self_of_not_mem hnot] at hsplit
        exact hsplit

/-- The two segments at the start of a path. -/
theorem splitOn_two_iff {l v w : List Char} : (∃ ws, l.splitOn '/' = v :: w :: ws) ↔
    '/' ∉ v ∧ '/' ∉ w ∧ ∃ rest, l = v ++ '/' :: (w ++ rest) ∧ EndsSegment rest := by
  constructor
  · rintro ⟨ws, h⟩
    obtain ⟨hv, ⟨-, hnil⟩ | ⟨more, rfl, hmore⟩⟩ := splitOn_cons_iff.mp h
    · cases hnil
    · obtain ⟨hw, ⟨rfl, -⟩ | ⟨rest, rfl, -⟩⟩ := splitOn_cons_iff.mp hmore
      · exact ⟨hv, hw, [], by rw [List.append_nil], .inl rfl⟩
      · exact ⟨hv, hw, '/' :: rest, rfl, .inr ⟨rest, rfl⟩⟩
  · rintro ⟨hv, hw, rest, rfl, rfl | ⟨more, rfl⟩⟩
    · rw [List.append_nil]
      exact ⟨[], splitOn_cons_iff.mpr ⟨hv, .inr ⟨w, rfl, splitOn_cons_iff.mpr ⟨hw, .inl ⟨rfl, rfl⟩⟩⟩⟩⟩
    · exact ⟨more.splitOn '/', splitOn_cons_iff.mpr ⟨hv, .inr ⟨_, rfl, splitOn_cons_iff.mpr ⟨hw, .inr ⟨more, rfl, rfl⟩⟩⟩⟩⟩

/-- **Which paths name a slug.** -/
theorem parseProjectKey_eq_ok {path : List Char} {slug : ProjectSlug} :
    parseProjectKey path = .ok (.slug slug) ↔
      ∃ rest, path.dropWhile (· == '/') = "v1/".toList ++ slug.text.toList ++ rest ∧ EndsSegment rest := by
  have hv : '/' ∉ "v1".toList := by decide
  have hw : '/' ∉ slug.text.toList := notMem_slug slug (by decide)
  have hsegments : parseProjectKey path = .ok (.slug slug) ↔
      ∃ ws, (path.dropWhile (· == '/')).splitOn '/' = "v1".toList :: slug.text.toList :: ws := by
    unfold parseProjectKey
    split
    · rename_i version maybeSlug ws hsplit
      rw [hsplit]
      constructor
      · intro h
        split at h
        · rename_i hversion
          split at h
          · rename_i s htry
            cases h
            have htext : maybeSlug = slug.text.toList := by rw [← tryFrom_eq_some.mp htry, String.toList_ofList]
            exact ⟨ws, by rw [hversion, ← htext]⟩
          · cases h
        · cases h
      · rintro ⟨ws', h⟩
        cases h
        rw [if_pos rfl, tryFrom_eq_some.mpr String.ofList_toList]
    · rename_i hnot
      refine iff_of_false (fun h => by cases h) ?_
      rintro ⟨ws, h⟩
      exact hnot _ _ _ h
  have hassoc (rest : List Char) :
      "v1/".toList ++ slug.text.toList ++ rest = "v1".toList ++ '/' :: (slug.text.toList ++ rest) := by
    rw [List.append_assoc]
    rfl
  rw [hsegments, splitOn_two_iff]
  constructor
  · rintro ⟨-, -, rest, hpath, hends⟩
    exact ⟨rest, hpath.trans (hassoc rest).symm, hends⟩
  · rintro ⟨rest, hpath, hends⟩
    exact ⟨hv, hw, rest, hpath.trans (hassoc rest), hends⟩

/-- A route of a slug names it. -/
theorem parseProjectKey_route (slug : ProjectSlug) {rest : List Char} (h : EndsSegment rest) :
    parseProjectKey ("/v1/".toList ++ slug.text.toList ++ rest) = .ok (.slug slug) :=
  parseProjectKey_eq_ok.mpr ⟨rest, rfl, h⟩

/-! ## The configuration -/

section Projects

variable {F S : Type}

theorem validateProjectsFrom_eq_ok {entries : List ProjectConfigEntry} {result slugs : List ProjectSlug}
    (h : (validateProjectsFrom result entries : Except (Violation F S) (List ProjectSlug)) = .ok slugs) :
    slugs.map ProjectSlug.text = result.map ProjectSlug.text ++ entries.map ProjectConfigEntry.slug ∧
      ((∀ slug ∈ result, isReservedSlug slug = false) → ∀ slug ∈ slugs, isReservedSlug slug = false) ∧
      ((result.map ProjectSlug.text).Nodup → (slugs.map ProjectSlug.text).Nodup) := by
  induction entries generalizing result with
  | nil =>
    cases h
    exact ⟨(List.append_nil _).symm, id, id⟩
  | cons entry entries ih =>
    unfold validateProjectsFrom at h
    split at h
    · cases h
    · rename_i slug htry
      split at h
      · cases h
      · rename_i hreserved
        split at h
        · cases h
        · rename_i hseen
          obtain ⟨htext, hall, hnodup⟩ := ih h
          refine ⟨?_, fun hresult => hall fun s hs => ?_, fun hresult => hnodup ?_⟩
          · have hslug : [slug].map ProjectSlug.text = [entry.slug] := by
              rw [tryFrom_eq_some.mp htry]
              rfl
            rw [htext, List.map_append, List.append_assoc, hslug]
            rfl
          · rcases List.mem_append.mp hs with hs | hs
            · exact hresult s hs
            · rw [List.mem_singleton.mp hs]
              exact Bool.eq_false_iff.mpr hreserved
          · rw [List.map_append, List.nodup_append]
            refine ⟨hresult, List.nodup_singleton _, fun a ha b hb => ?_⟩
            rw [List.mem_singleton.mp hb]
            exact fun heq => hseen (heq ▸ ha)

/-- **The slugs of a configuration** that is accepted: those of the stanzas, none of them reserved, each once. -/
theorem validateProjectsConfig_eq_ok {entries : List ProjectConfigEntry} {slugs : List ProjectSlug}
    (h : (validateProjectsConfig entries : Except (Violation F S) (List ProjectSlug)) = .ok slugs) :
    slugs.map ProjectSlug.text = entries.map ProjectConfigEntry.slug ∧
      (∀ slug ∈ slugs, isReservedSlug slug = false) ∧ (slugs.map ProjectSlug.text).Nodup := by
  obtain ⟨htext, hall, hnodup⟩ := validateProjectsFrom_eq_ok h
  exact ⟨htext, hall fun _ hs => (List.not_mem_nil hs).elim, hnodup List.nodup_nil⟩

end Projects

/-! ## The resolver -/

section Resolver

variable {Store Registry Pending Services : Type} {maxBodyBytes : Nat}
  {inputs : List (ProjectServerInput Store Registry Pending Services)}
  {router : MultiProjectRouter Store Registry Pending Services}

/-- The entry of an input. -/
def ProjectServerInput.entry (maxBodyBytes : Nat) (input : ProjectServerInput Store Registry Pending Services) :
    ProjectEntry Store Registry Pending Services :=
  ProjectEntry.fromServer input.store input.server maxBodyBytes

theorem lookup_addServers {slugs slugs' : HashMap ProjectSlug (ProjectEntry Store Registry Pending Services)}
    (h : inputs.foldlM (addServer maxBodyBytes) slugs = .ok slugs') (slug : ProjectSlug)
    (entry : ProjectEntry Store Registry Pending Services) :
    slugs'.lookup slug = some entry ↔
      slugs.lookup slug = some entry ∨ ∃ input ∈ inputs, input.slug = slug ∧ input.entry maxBodyBytes = entry := by
  induction inputs generalizing slugs with
  | nil =>
    cases h
    exact ⟨.inl, fun h => h.resolve_right fun ⟨_, hmem, _⟩ => by cases hmem⟩
  | cons input inputs ih =>
    obtain ⟨mid, hmid, hrest⟩ := Except.bind_eq_ok.mp h
    unfold addServer at hmid
    split at hmid
    · cases hmid
    · rename_i hnew
      cases hmid
      rw [ih hrest]
      have hnone : slugs.lookup input.slug = none := Option.not_isSome_iff_eq_none.mp hnew
      by_cases hslug : slug = input.slug
      · subst hslug
        rw [AList.lookup_insert, hnone]
        constructor
        · rintro (h | ⟨i, hi, hs, he⟩)
          · exact .inr ⟨input, List.mem_cons_self, rfl, Option.some.inj h⟩
          · exact .inr ⟨i, List.mem_cons_of_mem _ hi, hs, he⟩
        · rintro (h | ⟨i, hi, hs, he⟩)
          · cases h
          · rcases List.mem_cons.mp hi with rfl | hi
            · exact .inl (congrArg some he)
            · exact .inr ⟨i, hi, hs, he⟩
      · rw [AList.lookup_insert_ne hslug]
        refine or_congr_right ⟨fun ⟨i, hi, hs, he⟩ => ⟨i, List.mem_cons_of_mem _ hi, hs, he⟩, ?_⟩
        rintro ⟨i, hi, hs, he⟩
        rcases List.mem_cons.mp hi with rfl | hi
        · exact (hslug hs.symm).elim
        · exact ⟨i, hi, hs, he⟩

/-- **A slug resolves to what was built from its own input**, and to nothing else. -/
theorem lookup_fromServers (h : MultiProjectRouter.fromServers inputs maxBodyBytes = .ok router) (slug : ProjectSlug)
    (entry : ProjectEntry Store Registry Pending Services) :
    router.entryFor (.slug slug) = some entry ↔
      ∃ input ∈ inputs, input.slug = slug ∧ input.entry maxBodyBytes = entry := by
  unfold MultiProjectRouter.fromServers at h
  cases hfold : inputs.foldlM (addServer maxBodyBytes) ∅ with
  | error e =>
    rw [hfold] at h
    cases h
  | ok slugs =>
    rw [hfold] at h
    cases h
    refine (lookup_addServers hfold slug entry).trans ⟨fun h => h.resolve_left fun h => ?_, .inr⟩
    rw [AList.lookup_empty] at h
    cases h

end Resolver

end Unimatrix.Http
