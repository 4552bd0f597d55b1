import Unimatrix.Http.Bundle
import Unimatrix.Infra.Agents
import Unimatrix.Lib.ByteText
import Unimatrix.Lib.Runs

/-!
# The HTTP server

Model of `StaticTokenAuth` (`auth.rs`), `PathRouter` and `McpAdapter` (`router.rs`), `route_observe` (`handlers.rs`),
`SlugRouter::route_mcp` (`seam.rs`) and `prefix_session_id` (`observe.rs`).

* A handle is the address of what an `Arc` shares. What is behind the handles is a parameter, and so is what
  `dispatch_request` and `rmcp` do with it: they get the contents of the handles they are given and nothing else of a
  slug. What all slugs share (the embedding model, the clock) is read only, and comes with the request.
* `V` is what a server owns beside its store, its registry and its buffer, its MCP sessions included. How the response of
  `dispatch_request` is written, and the reasons that `serde_json` gives, are parameters.
* A handler runs to its end. A body is the frames that arrive, and the last may be an error.

**`isolation`**: what a request is answered depends on no request to another slug. **`bundle_reaches`**: the URLs and the
token of a bundle that was printed lead to the handlers of its slug.
-/

namespace Unimatrix.Http

open Json Wire Config SplitOnce
open Agents (Capability ResolvedIdentity)

/-! ## The code -/

/-- `Method`. -/
inductive Method where
  | get
  | post
  | other (name : String)
  deriving DecidableEq

/-- A frame of a body, or why there is none. -/
inductive Frame where
  | data (bytes : List UInt8)
  | trailers
  | broken
  deriving DecidableEq

/-- `Request`, with the identity that the extensions have. -/
structure Request where
  method : Method
  path : List Char
  headers : List (String × List UInt8)
  body : List Frame
  identity : Option ResolvedIdentity
  deriving DecidableEq

/-- `Response`. -/
structure Response where
  status : Nat
  contentType : Option String
  body : List UInt8
  deriving DecidableEq

/-- `HeaderMap::get`. -/
def Request.header (request : Request) (name : String) : Option (List UInt8) :=
  (request.headers.find? fun h => h.1 = name).map Prod.snd

/-- `HeaderValue::to_str`. -/
def toStr (value : List UInt8) : Option (List Char) :=
  if value.all fun b => (decide (32 ≤ b) && decide (b < 127)) || b == 9 then some (value.map fun b => Char.ofNat b.toNat)
  else none

/-- `json_error_response`. -/
def jsonErrorResponse (status : Nat) (message : String) : Response :=
  ⟨status, some "application/json", Utf8.encode (stringify (.object (field "error" (str message))))⟩

/-- `payload_too_large_response`. -/
def payloadTooLargeResponse : Response := jsonErrorResponse 413 "request body exceeds maximum size"

/-- `internal_error_response`. -/
def internalErrorResponse : Response := jsonErrorResponse 500 "failed to read request body"

/-- `unauthorized_response`. -/
def unauthorizedResponse : Response := jsonErrorResponse 401 "missing or invalid authorization"

/-- `CURRENT_SCHEMA_VERSION`. -/
def currentSchemaVersion : Nat := 32

/-- `health_response`, of a package with a version. -/
def healthResponse (version : String) : Response :=
  ⟨200, some "application/json", Utf8.encode
    ("\x7b\"version\":\"".toList ++ version.toList ++ "\",\"schema_version\":".toList ++
      Nat.toDigits 10 currentSchemaVersion ++ "\x7d".toList)⟩

/-- The response to an error of the seam. -/
def routeErrorResponse : RouteError → Response
  | .invalidSlug _ => jsonErrorResponse 400 "invalid project slug"
  | .unknownProject => jsonErrorResponse 404 "unknown project"

/-- `DEFAULT_MAX_BODY_BYTES`. -/
def defaultMaxBodyBytes : Nat := 1048576

/-- `exceeds_limit`. -/
def exceedsLimit (request : Request) (max : Nat) : Bool :=
  (((request.header "content-length").bind toStr).bind (parseUnsigned 0xFFFFFFFFFFFFFFFF)).any fun len => decide (max < len)

/-- `wants_text`. -/
def wantsText (request : Request) : Bool :=
  ((request.header "accept").bind toStr).any fun s => decide ("text/plain".toList <:+: s)

/-- `Limited::new(body, remaining).collect()`, as the response to its error. -/
def collect (remaining : Nat) : List Frame → Except Response (List UInt8)
  | [] => .ok []
  | .data bytes :: frames =>
    if remaining < bytes.length then .error payloadTooLargeResponse
    else (collect (remaining - bytes.length) frames).map fun rest => bytes ++ rest
  | .trailers :: frames => collect remaining frames
  | .broken :: _ => .error internalErrorResponse

/-- The body of a request, if it is within the limit. -/
def readBody (request : Request) (max : Nat) : Except Response (List UInt8) :=
  if exceedsLimit request max then .error payloadTooLargeResponse else collect max request.body

/-- `prefix_session_id`. -/
def prefixSessionId : HookRequest → HookRequest
  | .sessionRegister sessionId cwd agentRole feature => .sessionRegister ("http-" ++ sessionId) cwd agentRole feature
  | .sessionClose sessionId outcome durationSecs => .sessionClose ("http-" ++ sessionId) outcome durationSecs
  | .compactPayload sessionId injectedEntryIds role feature tokenLimit transcriptExcerpt accept =>
    .compactPayload ("http-" ++ sessionId) injectedEntryIds role feature tokenLimit transcriptExcerpt accept
  | .recordEvent event => .recordEvent { event with sessionId := "http-" ++ event.sessionId }
  | .recordEvents events => .recordEvents (events.map fun event => { event with sessionId := "http-" ++ event.sessionId })
  | .contextSearch query sessionId role task feature k maxTokens source accept =>
    .contextSearch query (sessionId.map ("http-" ++ ·)) role task feature k maxTokens source accept
  | .ping => .ping
  | .briefing role task feature maxTokens => .briefing role task feature maxTokens

/-- The server of a slug, by its handles. -/
abbrev Server : Type := UnimatrixServer Nat Nat Nat Nat

/-- What is called for a request. -/
inductive Dispatch where
  /-- `dispatch_request`, on the handles that were resolved. -/
  | observe (hook : HookRequest) (wantsText : Bool) (capabilities : List Capability) (handles : Server)
  /-- `streamable.call`. -/
  | mcp (streamable : Server) (request : Request)

/-- `McpAdapter::handle`, up to the call of `rmcp`. -/
def McpAdapter.handle (adapter : McpAdapter Nat Nat Nat Nat) (request : Request) : Except Response Dispatch := do
  let collected ← readBody request adapter.maxBodyBytes
  return .mcp adapter.streamable { request with body := [.data collected] }

section Server

variable (inRange : List Char → Bool) (reason : List UInt8 → String) (version : String)
  (resolver : MultiProjectRouter Nat Nat Nat Nat)

/-- `route_mcp`. -/
def routeMcp (request : Request) : Except Response Dispatch := do
  let key ← (parseProjectKey request.path).mapError routeErrorResponse
  let _store ← (resolver.resolveStore key).mapError routeErrorResponse
  match resolver.adapterFor key with
  | some adapter => adapter.handle request
  | none => .error (jsonErrorResponse 404 "unknown project")

/-- `route_observe`, up to the call of `dispatch_request`. -/
def routeObserve (request : Request) : Except Response Dispatch := do
  let key ← (parseProjectKey request.path).mapError routeErrorResponse
  let store ← (resolver.resolveStore key).mapError routeErrorResponse
  let registry ← (resolver.registryFor key).mapError fun _ => internalErrorResponse
  let pending ← (resolver.pendingFor key).mapError fun _ => internalErrorResponse
  let services ← (resolver.servicesFor key).mapError fun _ => internalErrorResponse
  match request.identity with
  | none => .error (jsonErrorResponse 500 "internal error: identity not resolved")
  | some identity =>
    let collected ← readBody request defaultMaxBodyBytes
    match deserializeRequest inRange collected with
    | none => .error (jsonErrorResponse 400 ("invalid request JSON: " ++ reason collected))
    | some hookRequest =>
      return .observe (prefixSessionId hookRequest) (wantsText request) identity.capabilities
        ⟨store, registry, pending, services⟩

/-- `PathRouter::call`. -/
def PathRouter.call (request : Request) : Except Response Dispatch :=
  if request.method = .get ∧ request.path = "/health".toList then .error (healthResponse version)
  else if request.method = .post ∧ "/v1/".toList <+: request.path ∧ "/observe".toList <:+ request.path then
    routeObserve inRange reason resolver request
  else routeMcp resolver request

/-- The identity of `validate_sync`. -/
def httpBearer : ResolvedIdentity := ⟨"http-bearer", .restricted, [.read, .write, .search, .sessionWrite]⟩

/-- `StaticTokenAuth::call`, around the `PathRouter`. -/
def StaticTokenAuth.call (tokenBytes : Vector UInt8 32) (request : Request) : Except Response Dispatch :=
  if request.path = "/health".toList ∧ request.method = .get then
    PathRouter.call inRange reason version resolver request
  else
    match (request.header "authorization").bind toStr with
    | none => .error unauthorizedResponse
    | some authStr =>
      if "Bearer ".toList <+: authStr ∧ validateSync tokenBytes (authStr.drop 7) then
        PathRouter.call inRange reason version resolver { request with identity := some httpBearer }
      else .error unauthorizedResponse

end Server

/-! ### What is behind the handles -/

/-- What belongs to a slug. -/
structure Project (S R P V : Type) where
  store : S
  registry : R
  pending : P
  services : V

/-- What is behind every handle. -/
structure Memory (S R P V : Type) where
  stores : Nat → S
  registries : Nat → R
  pendings : Nat → P
  services : Nat → V

section Memory

variable {S R P V : Type}

/-- What is behind the handles of a server. -/
def Memory.project (w : Memory S R P V) (server : Server) : Project S R P V :=
  ⟨w.stores server.store, w.registries server.sessionRegistry, w.pendings server.pendingEntriesAnalysis,
    w.services server.services⟩

/-- The memory with something else behind the handles of a server. -/
def Memory.put (w : Memory S R P V) (server : Server) (p : Project S R P V) : Memory S R P V :=
  ⟨Function.update w.stores server.store p.store, Function.update w.registries server.sessionRegistry p.registry,
    Function.update w.pendings server.pendingEntriesAnalysis p.pending, Function.update w.services server.services p.services⟩

/-- What handles requests: `dispatch_request` with `observe_response_to_http`, and `StreamableHttpService`. -/
structure Handlers (E S R P V : Type) where
  dispatchRequest : E → HookRequest → Bool → List Capability → Project S R P V → Response × Project S R P V
  streamable : E → Request → Project S R P V → Response × Project S R P V

variable {E : Type} (handlers : Handlers E S R P V)

/-- The server of a call. -/
def Dispatch.server : Dispatch → Server
  | .observe _ _ _ handles => handles
  | .mcp streamable _ => streamable

/-- What a call does to what is behind its handles. -/
def Dispatch.run (surroundings : E) : Dispatch → Project S R P V → Response × Project S R P V
  | .observe hook wantsText capabilities _ => handlers.dispatchRequest surroundings hook wantsText capabilities
  | .mcp _ request => handlers.streamable surroundings request

/-- The answer to a request, with the memory behind it. -/
def serve (front : Request → Except Response Dispatch) (w : Memory S R P V) (e : E × Request) :
    Response × Memory S R P V :=
  match front e.2 with
  | .error response => (response, w)
  | .ok dispatch =>
    let out := dispatch.run handlers e.1 (w.project dispatch.server)
    (out.1, w.put dispatch.server out.2)

/-- The memory behind a list of requests. -/
def serveAll (front : Request → Except Response Dispatch) (w : Memory S R P V) (es : List (E × Request)) :
    Memory S R P V :=
  es.foldl (fun w e => (serve handlers front w e).2) w

end Memory

/-! ## What reaches a handler -/

/-- The request has the token. -/
def Authorized (tokenBytes : Vector UInt8 32) (request : Request) : Prop :=
  ∃ token, (request.header "authorization").bind toStr = some ("Bearer ".toList ++ token) ∧
    validateSync tokenBytes token = true

/-- The request is one for `route_observe`. -/
def Request.IsObserve (request : Request) : Prop :=
  request.method = .post ∧ "/v1/".toList <+: request.path ∧ "/observe".toList <:+ request.path

section Front

variable {inRange : List Char → Bool} {reason : List UInt8 → String} {version : String} {maxBodyBytes : Nat}
  {inputs : List (ProjectServerInput Nat Nat Nat Nat)} {resolver : MultiProjectRouter Nat Nat Nat Nat}

/-- What a request of this input's slug makes of its body. -/
inductive Reaches (inRange : List Char → Bool) (maxBodyBytes : Nat) (server : Server) (request : Request) :
    Dispatch → Prop where
  | observe {collected : List UInt8} {hook : HookRequest} {identity : ResolvedIdentity} (hobserve : request.IsObserve)
      (hidentity : request.identity = some identity) (hbody : readBody request defaultMaxBodyBytes = .ok collected)
      (hhook : deserializeRequest inRange collected = some hook) :
      Reaches inRange maxBodyBytes server request
        (.observe (prefixSessionId hook) (wantsText request) identity.capabilities server)
  | mcp {collected : List UInt8} (hobserve : ¬ request.IsObserve) (hbody : readBody request maxBodyBytes = .ok collected) :
      Reaches inRange maxBodyBytes server request (.mcp server { request with body := [.data collected] })

theorem partFor_eq_ok {A : Type} {part : ProjectEntry Nat Nat Nat Nat → A} {key : ProjectKey} {a : A} :
    resolver.partFor part key = .ok a ↔ ∃ entry, resolver.entryFor key = some entry ∧ part entry = a := by
  unfold MultiProjectRouter.partFor
  cases resolver.entryFor key with
  | none => exact iff_of_false (fun h => by cases h) fun ⟨_, h, _⟩ => by cases h
  | some entry =>
    refine ⟨fun h => ⟨entry, rfl, Except.ok.inj h⟩, ?_⟩
    rintro ⟨_, hentry, rfl⟩
    cases hentry
    rfl

theorem routeMcp_eq_ok {request : Request} {d : Dispatch} : routeMcp resolver request = .ok d ↔
    ∃ key entry collected, parseProjectKey request.path = .ok key ∧ resolver.entryFor key = some entry ∧
      readBody request entry.adapter.maxBodyBytes = .ok collected ∧
      d = .mcp entry.adapter.streamable { request with body := [.data collected] } := by
  unfold routeMcp
  simp only [Except.bind_eq_ok, Except.mapError_eq_ok_iff, MultiProjectRouter.resolveStore, partFor_eq_ok,
    MultiProjectRouter.adapterFor]
  constructor
  · rintro ⟨key, hkey, _, ⟨entry, hentry, -⟩, h⟩
    rw [hentry] at h
    obtain ⟨collected, hbody, h⟩ := Except.bind_eq_ok.mp h
    cases h
    exact ⟨key, entry, collected, hkey, hentry, hbody, rfl⟩
  · rintro ⟨key, entry, collected, hkey, hentry, hbody, rfl⟩
    refine ⟨key, hkey, _, ⟨entry, hentry, rfl⟩, ?_⟩
    rw [hentry]
    exact Except.bind_eq_ok.mpr ⟨collected, hbody, rfl⟩

theorem routeObserve_eq_ok {request : Request} {d : Dispatch} :
    routeObserve inRange reason resolver request = .ok d ↔ ∃ key entry identity collected hook,
      parseProjectKey request.path = .ok key ∧ resolver.entryFor key = some entry ∧ request.identity = some identity ∧
        readBody request defaultMaxBodyBytes = .ok collected ∧ deserializeRequest inRange collected = some hook ∧
          d = .observe (prefixSessionId hook) (wantsText request) identity.capabilities
            ⟨entry.store, entry.sessionRegistry, entry.pendingEntriesAnalysis, entry.services⟩ := by
  unfold routeObserve
  simp only [Except.bind_eq_ok, Except.mapError_eq_ok_iff, MultiProjectRouter.resolveStore, MultiProjectRouter.registryFor,
    MultiProjectRouter.pendingFor, MultiProjectRouter.servicesFor, partFor_eq_ok]
  constructor
  · rintro ⟨key, hkey, _, ⟨entry, hentry, rfl⟩, _, ⟨_, hregistry, rfl⟩, _, ⟨_, hpending, rfl⟩, _, ⟨_, hservices, rfl⟩, h⟩
    obtain rfl := Option.some.inj (hentry.symm.trans hregistry)
    obtain rfl := Option.some.inj (hentry.symm.trans hpending)
    obtain rfl := Option.some.inj (hentry.symm.trans hservices)
    split at h
    · cases h
    rename_i identity hidentity
    obtain ⟨collected, hbody, h⟩ := Except.bind_eq_ok.mp h
    split at h
    · cases h
    rename_i hook hhook
    cases h
    exact ⟨key, entry, identity, collected, hook, hkey, hentry, hidentity, hbody, hhook, rfl⟩
  · rintro ⟨key, entry, identity, collected, hook, hkey, hentry, hidentity, hbody, hhook, rfl⟩
    refine ⟨key, hkey, _, ⟨entry, hentry, rfl⟩, _, ⟨entry, hentry, rfl⟩, _, ⟨entry, hentry, rfl⟩, _, ⟨entry, hentry, rfl⟩, ?_⟩
    rw [hidentity]
    refine Except.bind_eq_ok.mpr ⟨collected, hbody, ?_⟩
    rw [hhook]
    rfl

theorem parseProjectKey_health : parseProjectKey "/health".toList = .error .unknownProject := by decide

/-- **What the router lets through**: a request for a registered slug, to the server of that slug. -/
theorem pathRouter_eq_ok (h : MultiProjectRouter.fromServers inputs maxBodyBytes = .ok resolver)
    (hstore : ∀ input ∈ inputs, input.server.store = input.store) {request : Request} {d : Dispatch} :
    PathRouter.call inRange reason version resolver request = .ok d ↔ ∃ input ∈ inputs,
      parseProjectKey request.path = .ok (.slug input.slug) ∧ Reaches inRange maxBodyBytes input.server request d := by
  have hentries {slug : ProjectSlug} {entry : ProjectEntry Nat Nat Nat Nat} := lookup_fromServers h slug entry
  unfold PathRouter.call
  split_ifs with hhealth hobserve
  · refine iff_of_false (fun h => by cases h) ?_
    rintro ⟨input, -, hkey, -⟩
    rw [hhealth.2, parseProjectKey_health] at hkey
    cases hkey
  · rw [routeObserve_eq_ok]
    constructor
    · rintro ⟨⟨slug⟩, entry, identity, collected, hook, hkey, hentry, hidentity, hbody, hhook, rfl⟩
      obtain ⟨input, hinput, rfl, rfl⟩ := hentries.mp hentry
      have hserver : (⟨(input.entry maxBodyBytes).store, (input.entry maxBodyBytes).sessionRegistry,
          (input.entry maxBodyBytes).pendingEntriesAnalysis, (input.entry maxBodyBytes).services⟩ : Server) =
          input.server := congrArg (fun s => (⟨s, _, _, _⟩ : Server)) (hstore input hinput).symm
      rw [hserver]
      exact ⟨input, hinput, hkey, .observe hobserve hidentity hbody hhook⟩
    · rintro ⟨input, hinput, hkey, hreaches⟩
      cases hreaches with
      | observe _ hidentity hbody hhook =>
        refine ⟨_, _, _, _, _, hkey, hentries.mpr ⟨input, hinput, rfl, rfl⟩, hidentity, hbody, hhook, ?_⟩
        exact congrArg (Dispatch.observe _ _ _) (congrArg (fun s => (⟨s, _, _, _⟩ : Server)) (hstore input hinput))
      | mcp hnot => exact (hnot hobserve).elim
  · rw [routeMcp_eq_ok]
    constructor
    · rintro ⟨⟨slug⟩, entry, collected, hkey, hentry, hbody, rfl⟩
      obtain ⟨input, hinput, rfl, rfl⟩ := hentries.mp hentry
      exact ⟨input, hinput, hkey, .mcp hobserve hbody⟩
    · rintro ⟨input, hinput, hkey, hreaches⟩
      cases hreaches with
      | observe hyes => exact (hobserve hyes).elim
      | mcp _ hbody => exact ⟨_, _, _, hkey, hentries.mpr ⟨input, hinput, rfl, rfl⟩, hbody, rfl⟩

/-- **What the authentication lets through.** -/
theorem auth_eq_ok {tokenBytes : Vector UInt8 32} {request : Request} {d : Dispatch} :
    StaticTokenAuth.call inRange reason version resolver tokenBytes request = .ok d ↔ Authorized tokenBytes request ∧
      PathRouter.call inRange reason version resolver { request with identity := some httpBearer } = .ok d := by
  unfold StaticTokenAuth.call
  split_ifs with hhealth
  · have hanswer (r : Request) (hpath : r.path = "/health".toList) (hmethod : r.method = .get) :
        PathRouter.call inRange reason version resolver r ≠ .ok d := by
      unfold PathRouter.call
      rw [if_pos ⟨hmethod, hpath⟩]
      exact fun h => by cases h
    refine iff_of_false (hanswer request hhealth.1 hhealth.2) fun h => ?_
    exact hanswer { request with identity := some httpBearer } hhealth.1 hhealth.2 h.2
  · cases hauth : (request.header "authorization").bind toStr with
    | none =>
      refine iff_of_false (fun h => by cases h) ?_
      rintro ⟨⟨token, htoken, -⟩, -⟩
      rw [hauth] at htoken
      cases htoken
    | some authStr =>
      have hauthorized : Authorized tokenBytes request ↔
          "Bearer ".toList <+: authStr ∧ validateSync tokenBytes (authStr.drop 7) = true := by
        unfold Authorized
        rw [hauth]
        constructor
        · rintro ⟨token, htoken, hvalid⟩
          obtain rfl := Option.some.inj htoken
          exact ⟨List.prefix_append _ _, hvalid⟩
        · rintro ⟨⟨token, rfl⟩, hvalid⟩
          exact ⟨token, rfl, hvalid⟩
      simp only
      split_ifs with hbearer
      · exact ⟨fun h => ⟨hauthorized.mpr hbearer, h⟩, fun h => h.2⟩
      · exact iff_of_false (fun h => by cases h) fun h => hbearer (hauthorized.mp h.1)

/-- **What reaches a handler**: a request with the token for a registered slug, and it reaches that of the slug. -/
theorem call_eq_ok (h : MultiProjectRouter.fromServers inputs maxBodyBytes = .ok resolver)
    (hstore : ∀ input ∈ inputs, input.server.store = input.store) {tokenBytes : Vector UInt8 32} {request : Request}
    {d : Dispatch} : StaticTokenAuth.call inRange reason version resolver tokenBytes request = .ok d ↔
      Authorized tokenBytes request ∧ ∃ input ∈ inputs, parseProjectKey request.path = .ok (.slug input.slug) ∧
        Reaches inRange maxBodyBytes input.server { request with identity := some httpBearer } d :=
  auth_eq_ok.trans (and_congr_right fun _ => pathRouter_eq_ok h hstore)

end Front

/-! ## What a slug sees -/

section Isolation

variable {S R P V E : Type} (handlers : Handlers E S R P V)

/-- No handle is shared between two servers. -/
structure Apart (a b : Server) : Prop where
  store : a.store ≠ b.store
  registry : a.sessionRegistry ≠ b.sessionRegistry
  pending : a.pendingEntriesAnalysis ≠ b.pendingEntriesAnalysis
  services : a.services ≠ b.services

/-- Every slug has a server of its own, on its own store. -/
structure Separate (inputs : List (ProjectServerInput Nat Nat Nat Nat)) : Prop where
  store : ∀ input ∈ inputs, input.server.store = input.store
  apart : ∀ input ∈ inputs, ∀ other ∈ inputs, input.slug ≠ other.slug → Apart input.server other.server

@[simp] theorem Memory.project_put (w : Memory S R P V) (server : Server) (p : Project S R P V) :
    (w.put server p).project server = p := by
  simp [Memory.put, Memory.project]

theorem Memory.project_put_of_apart {server other : Server} (h : Apart server other) (w : Memory S R P V)
    (p : Project S R P V) : (w.put other p).project server = w.project server := by
  simp [Memory.put, Memory.project, h.store, h.registry, h.pending, h.services]

theorem Reaches.server {inRange : List Char → Bool} {maxBodyBytes : Nat} {server : Server} {request : Request}
    {d : Dispatch} (h : Reaches inRange maxBodyBytes server request d) : d.server = server := by
  cases h <;> rfl

theorem serve_error {front : Request → Except Response Dispatch} {e : E × Request} {response : Response}
    (h : front e.2 = .error response) (w : Memory S R P V) : serve handlers front w e = (response, w) := by
  unfold serve
  rw [h]

theorem serve_ok {front : Request → Except Response Dispatch} {e : E × Request} {d : Dispatch}
    (h : front e.2 = .ok d) (w : Memory S R P V) : serve handlers front w e =
      ((d.run handlers e.1 (w.project d.server)).1, w.put d.server (d.run handlers e.1 (w.project d.server)).2) := by
  unfold serve
  rw [h]

variable {inRange : List Char → Bool} {reason : List UInt8 → String} {version : String} {maxBodyBytes : Nat}
  {inputs : List (ProjectServerInput Nat Nat Nat Nat)} {resolver : MultiProjectRouter Nat Nat Nat Nat}
  {tokenBytes : Vector UInt8 32}

/-- Only one server answers to a slug. -/
theorem server_unique (h : MultiProjectRouter.fromServers inputs maxBodyBytes = .ok resolver)
    {input other : ProjectServerInput Nat Nat Nat Nat} (hinput : input ∈ inputs) (hother : other ∈ inputs)
    (hslug : input.slug = other.slug) : input.server = other.server := by
  have hentry := (lookup_fromServers h input.slug _).mpr ⟨input, hinput, rfl, rfl⟩
  have hentry' := (lookup_fromServers h input.slug _).mpr ⟨other, hother, hslug.symm, rfl⟩
  have heq := Option.some.inj (hentry.symm.trans hentry')
  exact congrArg (fun entry => entry.adapter.streamable) heq

theorem project_serve_other (h : MultiProjectRouter.fromServers inputs maxBodyBytes = .ok resolver)
    (hsep : Separate inputs) {input : ProjectServerInput Nat Nat Nat Nat} (hinput : input ∈ inputs)
    (w : Memory S R P V) {e : E × Request} (hnot : parseProjectKey e.2.path ≠ .ok (.slug input.slug)) :
    (serve handlers (StaticTokenAuth.call inRange reason version resolver tokenBytes) w e).2.project input.server =
      w.project input.server := by
  cases hfront : StaticTokenAuth.call inRange reason version resolver tokenBytes e.2 with
  | error response => rw [serve_error handlers hfront]
  | ok d =>
    obtain ⟨-, other, hother, hkey, hreaches⟩ := (call_eq_ok h hsep.store).mp hfront
    have hslug : input.slug ≠ other.slug := fun heq => hnot (heq ▸ hkey)
    rw [serve_ok handlers hfront, hreaches.server]
    exact Memory.project_put_of_apart (hsep.apart input hinput other hother hslug) _ _

theorem project_serve_own (h : MultiProjectRouter.fromServers inputs maxBodyBytes = .ok resolver)
    (hsep : Separate inputs) {input : ProjectServerInput Nat Nat Nat Nat} (hinput : input ∈ inputs)
    {w w' : Memory S R P V} (hview : w.project input.server = w'.project input.server) {e : E × Request}
    (hown : parseProjectKey e.2.path = .ok (.slug input.slug)) :
    (serve handlers (StaticTokenAuth.call inRange reason version resolver tokenBytes) w e).2.project input.server =
      (serve handlers (StaticTokenAuth.call inRange reason version resolver tokenBytes) w' e).2.project input.server := by
  cases hfront : StaticTokenAuth.call inRange reason version resolver tokenBytes e.2 with
  | error response =>
    rw [serve_error handlers hfront, serve_error handlers hfront]
    exact hview
  | ok d =>
    obtain ⟨-, other, hother, hkey, hreaches⟩ := (call_eq_ok h hsep.store).mp hfront
    have hslug : input.slug = other.slug := ProjectKey.slug.inj (Except.ok.inj (hown.symm.trans hkey))
    have hserver : d.server = input.server := hreaches.server.trans (server_unique h hinput hother hslug).symm
    rw [serve_ok handlers hfront, serve_ok handlers hfront, hserver, Memory.project_put, Memory.project_put, hview]

/-- **A slug sees no request to another.** -/
theorem project_serveAll (h : MultiProjectRouter.fromServers inputs maxBodyBytes = .ok resolver) (hsep : Separate inputs)
    {input : ProjectServerInput Nat Nat Nat Nat} (hinput : input ∈ inputs) (w : Memory S R P V)
    (es : List (E × Request)) :
    (serveAll handlers (StaticTokenAuth.call inRange reason version resolver tokenBytes) w es).project input.server =
      (serveAll handlers (StaticTokenAuth.call inRange reason version resolver tokenBytes) w
        (es.filter fun e => decide (parseProjectKey e.2.path = .ok (.slug input.slug)))).project input.server := by
  refine Runs.view_foldl_filter (f := fun w : Memory S R P V => w.project input.server) ?_ ?_ es rfl
  · intro w e hnot
    exact project_serve_other handlers h hsep hinput w (of_decide_eq_false hnot)
  · intro w w' e hown hview
    exact project_serve_own handlers h hsep hinput hview (of_decide_eq_true hown)

end Isolation

/-! ## From a bundle to the handlers -/

section Bundle

variable {inRange : List Char → Bool} {reason : List UInt8 → String} {version : String} {maxBodyBytes : Nat}
  {inputs : List (ProjectServerInput Nat Nat Nat Nat)} {resolver : MultiProjectRouter Nat Nat Nat Nat}

/-- A header value that a text was written to is read as that text. -/
theorem toStr_encode {s : List Char} (h : ∀ c ∈ s, 32 ≤ c.toNat ∧ c.toNat < 127) : toStr (Utf8.encode s) = some s := by
  have hbyte (c : Char) (hc : c ∈ s) : (UInt8.ofNat c.toNat).toNat = c.toNat :=
    UInt8.toNat_ofNat_of_lt' ((h c hc).2.trans (by decide))
  rw [Utf8.encode_ascii fun c hc => (h c hc).2.trans (by decide)]
  unfold toStr
  rw [if_pos]
  · rw [List.map_map]
    refine congrArg some ((List.map_congr_left fun c hc => ?_).trans (List.map_id s))
    change Char.ofNat (UInt8.ofNat c.toNat).toNat = c
    rw [hbyte c hc, Char.ofNat_toNat]
  · refine List.all_eq_true.mpr fun b hb => ?_
    obtain ⟨c, hc, rfl⟩ := List.mem_map.mp hb
    refine Bool.or_eq_true_iff.mpr (.inl (Bool.and_eq_true_iff.mpr ⟨decide_eq_true ?_, decide_eq_true ?_⟩))
    · exact UInt8.le_iff_toNat_le.mpr ((hbyte c hc).symm ▸ (h c hc).1)
    · exact UInt8.lt_iff_toNat_lt.mpr ((hbyte c hc).symm ▸ (h c hc).2)

/-- The value of the header that a client of a token sends. -/
def bearer (token : List Char) : List UInt8 := Utf8.encode ("Bearer ".toList ++ token)

theorem authorized_bearer {tokenBytes : Vector UInt8 32} {token : List Char} (htoken : isToken token = true)
    (hvalid : validateSync tokenBytes token = true) {request : Request}
    (hheader : request.header "authorization" = some (bearer token)) : Authorized tokenBytes request := by
  refine ⟨token, ?_, hvalid⟩
  rw [hheader]
  refine toStr_encode fun c hc => ?_
  rcases List.mem_append.mp hc with hc | hc
  · have hall : "Bearer ".toList.all fun c => decide (32 ≤ c.toNat ∧ c.toNat < 127) := by decide
    exact of_decide_eq_true (List.all_eq_true.mp hall c hc)
  · have hhex := List.all_eq_true.mp (Bool.and_eq_true_iff.mp htoken).2 c hc
    have := toNat_of_isLowerHex hhex
    omega

/-- The route of a slug is not one for `route_observe`. -/
theorem not_isObserve {slug : ProjectSlug} (hslug : slug.text ≠ "observe") {request : Request}
    (hpath : request.path = "/v1/".toList ++ slug.text.toList) : ¬ request.IsObserve := by
  rintro ⟨-, -, ⟨route, hroute⟩⟩
  rw [hpath] at hroute
  have hobserve : "/observe".toList = '/' :: "observe".toList := rfl
  have hversion : "/v1/".toList ++ slug.text.toList = "/v1".toList ++ '/' :: slug.text.toList := rfl
  rw [hobserve, hversion] at hroute
  have hleft : rsplitOnce '/' (route ++ '/' :: "observe".toList) = some (route, "observe".toList) :=
    rsplitOnce_eq_some.mpr ⟨rfl, by decide⟩
  have hright : rsplitOnce '/' ("/v1".toList ++ '/' :: slug.text.toList) = some ("/v1".toList, slug.text.toList) :=
    rsplitOnce_eq_some.mpr ⟨rfl, notMem_slug slug (by decide)⟩
  rw [hroute, hright] at hleft
  exact hslug (String.toList_inj.mp (congrArg Prod.snd (Option.some.inj hleft)))

theorem isObserve_route {slug : ProjectSlug} {request : Request} (hmethod : request.method = .post)
    (hpath : request.path = "/v1/".toList ++ slug.text.toList ++ "/observe".toList) : request.IsObserve := by
  refine ⟨hmethod, ?_, ?_⟩
  · rw [hpath, List.append_assoc]
    exact List.prefix_append _ _
  · rw [hpath]
    exact List.suffix_append _ _

/-- A request with the token of a bundle, to its URLs, is for this server. -/
def Leads (inRange : List Char → Bool) (maxBodyBytes : Nat) (front : Request → Except Response Dispatch) (server : Server)
    (b : Bundle) : Prop :=
  ∀ request : Request, request.header "authorization" = some (bearer b.token.toList) →
    (∀ collected hook, request.method = .post → request.path = pathOf b.observeUrl.toList →
      readBody request defaultMaxBodyBytes = .ok collected → deserializeRequest inRange collected = some hook →
        front request = .ok (.observe (prefixSessionId hook) (wantsText request) httpBearer.capabilities server)) ∧
    ∀ collected, request.path = pathOf b.mcpUrl.toList → readBody request maxBodyBytes = .ok collected →
      front request = .ok (.mcp server { request with body := [.data collected], identity := some httpBearer })

/-- **The URLs and the token of a bundle lead to the handlers of its slug**, whatever the public URL is, if the server has
loaded the token file that the bundle was made from. -/
theorem bundle_reaches (h : MultiProjectRouter.fromServers inputs maxBodyBytes = .ok resolver)
    (hstore : ∀ input ∈ inputs, input.server.store = input.store)
    (hreserved : ∀ input ∈ inputs, isReservedSlug input.slug = false)
    {input : ProjectServerInput Nat Nat Nat Nat} (hinput : input ∈ inputs) {sha256 : Digest} {env : Option (List Char)}
    {content : List Char} {tokenBytes : Vector UInt8 32} (htoken : tokenOf content = .ok tokenBytes.toList)
    {leafDer : Option ByteArray} {out : List Char × String}
    (hbundle : runClientBundle sha256 env input.slug.text (some content) leafDer = .ok out)
    (hlen : (Utf8.encode out.1).length ≤ maxRawLen) (hrange : inRange ['2'] = true)
    {fromBase64url : List Char → List UInt8} (hnode : ∀ bytes, fromBase64url (Base64.encode bytes) = bytes)
    (stringOf : Option Value → String) : ∃ b : Bundle, decodeBundleJs fromBase64url stringOf out.1 = .ok b.js ∧
      Leads inRange maxBodyBytes (StaticTokenAuth.call inRange reason version resolver tokenBytes) input.server b := by
  obtain ⟨slug, content', der, b, hslug, hcontent, -, hissued, -, hdecode⟩ :=
    runClientBundle_decodes hbundle hlen hrange hnode stringOf
  obtain rfl : input.slug = slug := slug_ext hslug
  obtain rfl := Option.some.inj hcontent
  obtain ⟨held, hheld, hvalid⟩ := hissued.token
  obtain rfl : tokenBytes = held := Vector.toList_inj.mp (Except.ok.inj (htoken.symm.trans hheld))
  have hobserve : input.slug.text ≠ "observe" := fun heq => by
    have hnot := of_decide_eq_false (hreserved input hinput)
    rw [heq] at hnot
    exact hnot (by decide)
  refine ⟨b, hdecode, fun request hheader => ?_⟩
  have hauthorized := authorized_bearer hissued.valid.token hvalid hheader
  refine ⟨fun collected hook hmethod hpath hbody hhook => ?_, fun collected hpath hbody => ?_⟩
  · rw [hissued.observeUrl] at hpath
    have hkey : parseProjectKey request.path = .ok (.slug input.slug) := by
      rw [hpath]
      exact parseProjectKey_route _ (.inr ⟨_, rfl⟩)
    exact (call_eq_ok h hstore).mpr ⟨hauthorized, input, hinput, hkey,
      .observe (isObserve_route hmethod hpath) rfl hbody hhook⟩
  · rw [hissued.mcpUrl] at hpath
    have hkey : parseProjectKey request.path = .ok (.slug input.slug) := by
      rw [hpath, ← List.append_nil ("/v1/".toList ++ input.slug.text.toList)]
      exact parseProjectKey_route _ (.inl rfl)
    exact (call_eq_ok h hstore).mpr ⟨hauthorized, input, hinput, hkey, .mcp (not_isObserve hobserve hpath) hbody⟩

end Bundle

/-! ## Two slugs -/

/-- Two slugs with handles of their own. -/
def twoInputs : List (ProjectServerInput Nat Nat Nat Nat) :=
  [⟨⟨"a", by decide⟩, 0, ⟨0, 0, 0, 0⟩⟩, ⟨⟨"b", by decide⟩, 1, ⟨1, 1, 1, 1⟩⟩]

/-- The resolver of the two. -/
def twoRouter : MultiProjectRouter Nat Nat Nat Nat :=
  ⟨twoInputs.foldl (fun slugs input => slugs.insert input.slug (input.entry defaultMaxBodyBytes)) ∅⟩

theorem fromServers_two : MultiProjectRouter.fromServers twoInputs defaultMaxBodyBytes = .ok twoRouter := rfl

theorem mem_two {input : ProjectServerInput Nat Nat Nat Nat} (h : input ∈ twoInputs) :
    input = ⟨⟨"a", by decide⟩, 0, ⟨0, 0, 0, 0⟩⟩ ∨ input = ⟨⟨"b", by decide⟩, 1, ⟨1, 1, 1, 1⟩⟩ :=
  (List.mem_cons.mp h).imp id List.mem_singleton.mp

theorem separate_two : Separate twoInputs where
  store input h := by
    rcases mem_two h with rfl | rfl <;> rfl
  apart input h other h' hne := by
    rcases mem_two h with rfl | rfl <;> rcases mem_two h' with rfl | rfl
    · exact (hne rfl).elim
    · exact ⟨by decide, by decide, by decide, by decide⟩
    · exact ⟨by decide, by decide, by decide, by decide⟩
    · exact (hne rfl).elim

/-- The way in to the two, with the token of zeros. -/
def frontTwo : Request → Except Response Dispatch :=
  StaticTokenAuth.call (fun _ => true) (fun _ => "") "" twoRouter (Vector.replicate 32 0)

/-- A request to the route of a slug. -/
def requestTo (slug : String) : Unit × Request :=
  ((), ⟨.post, "/v1/".toList ++ slug.toList, [("authorization", bearer (List.replicate 64 '0'))], [], none⟩)

/-- Handlers that count what they have served. -/
def counting : Handlers Unit Unit Unit Unit Nat where
  dispatchRequest _ _ _ _ p := (⟨p.services, none, []⟩, { p with services := p.services + 1 })
  streamable _ _ p := (⟨p.services, none, []⟩, { p with services := p.services + 1 })

/-- Nothing has been served. -/
def fresh : Memory Unit Unit Unit Nat := ⟨fun _ => (), fun _ => (), fun _ => (), fun _ => 0⟩

/-- What is printed for the slug "a", with a token and a certificate of zeros. -/
def zeroOut : List Char × String :=
  renderOutput (encodeBundle zeroBundle) zeroBundle.mcpUrl zeroBundle.observeUrl zeroBundle.fp

theorem runClientBundle_zero : runClientBundle (fun _ => Vector.replicate 32 0) none "a" (some (List.replicate 64 '0'))
    (some ByteArray.empty) = .ok zeroOut := by
  decide +kernel

theorem bundle_reaches_two :
    ∃ b : Bundle, decodeBundleJs (fun cs => (Base64.decode cs).getD []) (fun _ => "") zeroOut.1 = .ok b.js ∧
      Leads (fun _ => true) defaultMaxBodyBytes frontTwo ⟨0, 0, 0, 0⟩ b :=
  bundle_reaches fromServers_two separate_two.store
    (fun input h => by rcases mem_two h with rfl | rfl <;> decide) List.mem_cons_self
    (by decide +kernel) runClientBundle_zero (by decide +kernel) rfl
    (fun bytes => by rw [Base64.decode_encode]; rfl) _

end Unimatrix.Http
