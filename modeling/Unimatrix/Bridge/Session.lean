import Unimatrix.Bridge.Lifecycle

/-!
# Requests without a session id

Once the bridge has a session id it only lacks one while a re-init awaits its reply (`Established`): `_doReinit`
clears the id before it asks for a new one, and puts the old one back if it gets none. What waits for the re-init is
sent afterwards, with an id; what arrives meanwhile is sent at once, without.

**`session_header_iff`**: in a run that goes on from there every request but `initialize` has a session id iff no
message arrives that is sent while there is none (`Lands`).
-/

namespace Unimatrix.McpBridge

variable {σ ι : Type}

/-- The message is not sent at once without a session id: it is an `initialize`, there is an id, the dormancy check
holds it back, or it is too long. -/
def Lands (staleMs : Nat) (b : Bridge σ ι) : Event σ ι → Prop
  | .handle msg now => msg.isInit ∨ b.sessionId ≠ none ∨ b.stale staleMs msg now ∨ msg.fits = false
  | _ => True

instance (staleMs : Nat) (b : Bridge σ ι) : (e : Event σ ι) → Decidable (Lands staleMs b e)
  | .handle msg now =>
    inferInstanceAs (Decidable (msg.isInit ∨ b.sessionId ≠ none ∨ b.stale staleMs msg now ∨ msg.fits = false))
  | .reply _ _ _ => isTrue trivial
  | .reinitReply _ _ => isTrue trivial

/-- All but the `initialize` requests have a session id. -/
def HaveSession (ds : List (Dispatch σ ι)) : Prop := ∀ d ∈ ds, d.msg.isInit = false → d.session ≠ none

instance (ds : List (Dispatch σ ι)) : Decidable (HaveSession ds) :=
  inferInstanceAs (Decidable (∀ d ∈ ds, d.msg.isInit = false → d.session ≠ none))

/-- What a re-init replays is an `initialize`. -/
def Replays (b : Bridge σ ι) : Prop := ∀ msg ∈ b.initMessage, msg.isInit

/-- The bridge has a session id, or a re-init that can put one back. -/
structure Established (b : Bridge σ ι) : Prop where
  init : Replays b
  id : b.sessionId ≠ none ∨ ∃ x, b.reinitInFlight = some (some x)

theorem haveSession_nil : HaveSession ([] : List (Dispatch σ ι)) := fun _ h => by cases h

theorem haveSession_singleton {d : Dispatch σ ι} :
    HaveSession [d] ↔ (d.msg.isInit = false → d.session ≠ none) := by
  unfold HaveSession
  simp only [List.mem_singleton, forall_eq]

/-- A request that is sent with an id, or an `initialize`. -/
theorem haveSession_headers {b : Bridge σ ι} {msg : Request ι} :
    HaveSession [b.headers msg] ↔ (msg.isInit = false → b.sessionId ≠ none) := haveSession_singleton

/-- What a re-init sends is an `initialize`. -/
theorem Established.reinit {b : Bridge σ ι} (h : Established b) :
    Established b.reinit.1 ∧ ∃ new, b.reinit.1.dispatched = b.dispatched ++ new ∧ HaveSession new := by
  have hsame : Established b ∧ ∃ new, b.dispatched = b.dispatched ++ new ∧ HaveSession new :=
    ⟨h, [], (List.append_nil _).symm, haveSession_nil⟩
  cases hwait : b.reinit.2 with
  | false => rwa [reinit_of_false hwait]
  | true =>
    rcases reinit_of_true hwait with ⟨hsame', -⟩ | ⟨init, hinit, hnone, heq⟩
    · rwa [hsame']
    · obtain ⟨x, hx⟩ : ∃ x, b.sessionId = some x := by
        rcases h.id with hid | ⟨x, hx⟩
        · exact Option.ne_none_iff_exists'.mp hid
        · rw [hnone] at hx
          cases hx
      have hyes : init.isInit = true := h.init init hinit
      rw [heq]
      refine ⟨⟨h.init, .inr ⟨x, by simp only [hx]⟩⟩, _, rfl, haveSession_headers.mpr fun hno => ?_⟩
      exact absurd (hyes.symm.trans hno) Bool.noConfusion

/-- Where there is nothing to wait for, there is an id. -/
theorem Established.of_reinit_false {b : Bridge σ ι} (h : Established b) (hno : b.reinit.2 = false) :
    b.sessionId ≠ none := by
  refine h.id.resolve_right fun ⟨x, hx⟩ => ?_
  unfold Bridge.reinit at hno
  rw [hx] at hno
  cases hno

/-- A reply takes no id away. -/
theorem receive_sessionId_ne_none {b : Bridge σ ι} (h : b.sessionId ≠ none) (isInit : Bool) (r : Reply σ ι)
    (now : Nat) : (b.receive isInit r now).sessionId ≠ none := by
  rw [receive_sessionId]
  split
  · cases r.sessionHeader with
    | none => exact h
    | some x => exact Option.some_ne_none x
  · exact h

theorem Established.receive {b : Bridge σ ι} (h : Established b) (isInit : Bool) (r : Reply σ ι) (now : Nat) :
    Established (b.receive isInit r now) := by
  refine ⟨by unfold Replays; rw [receive_initMessage]; exact h.init, ?_⟩
  rw [receive_reinitInFlight]
  exact h.id.imp_left fun hid => receive_sessionId_ne_none hid isInit r now

/-! ## One step -/

theorem Established.handle {b : Bridge σ ι} (h : Established b) (staleMs : Nat) (msg : Request ι) (now : Nat) :
    Established (b.handle staleMs msg now) ∧
      ∃ new, (b.handle staleMs msg now).dispatched = b.dispatched ++ new ∧
        (HaveSession new ↔ msg.isInit ∨ b.sessionId ≠ none ∨ b.stale staleMs msg now ∨ msg.fits = false) := by
  have hsend : ∃ new, (if msg.fits then b.dispatched ++ [b.headers msg] else b.dispatched) =
      b.dispatched ++ new ∧ (HaveSession new ↔ msg.isInit ∨ b.sessionId ≠ none ∨ msg.fits = false) := by
    cases hfits : msg.fits with
    | true =>
      refine ⟨_, if_pos rfl, ?_⟩
      rw [haveSession_headers]
      cases msg.isInit <;> simp
    | false => exact ⟨[], (List.append_nil _).symm, iff_of_true haveSession_nil (.inr (.inr rfl))⟩
  obtain ⟨new, hnew, hhave⟩ := hsend
  have hstep := handle_step staleMs b msg now
  generalize b.handle staleMs msg now = b' at hstep ⊢
  cases hstep with
  | waits hstale hwait =>
    obtain ⟨hest, new', hnew', hhave'⟩ := h.reinit
    exact ⟨⟨hest.init, hest.id⟩, new', hnew', iff_of_true hhave' (.inr (.inr (.inl hstale)))⟩
  | init hinit =>
    refine ⟨⟨fun m hm => ?_, h.id⟩, new, hnew, iff_of_true (hhave.mpr (.inl hinit)) (.inl hinit)⟩
    obtain rfl : msg = m := Option.some.inj hm
    exact hinit
  | sends hinit hstale =>
    refine ⟨⟨h.init, h.id⟩, new, hnew, hhave.trans ?_⟩
    cases hs : b.stale staleMs msg now with
    | false => simp
    | true =>
      have hid := h.of_reinit_false (hstale hs)
      exact iff_of_true (.inr (.inl hid)) (.inr (.inl hid))

theorem Established.reply [DecidableEq ι] {b : Bridge σ ι} (h : Established b) (k : Nat) (r : Reply σ ι)
    (now : Nat) : Established (b.reply k r now) ∧
      ∃ new, (b.reply k r now).dispatched = b.dispatched ++ new ∧ HaveSession new := by
  have hstep := reply_step b k r now
  generalize b.reply k r now = b' at hstep ⊢
  cases hstep with
  | idle => exact ⟨h, [], (List.append_nil _).symm, haveSession_nil⟩
  | lost hc hphase hinit hlost =>
    obtain ⟨hest, new, hnew, hhave⟩ := (h.receive false r now).reinit
    rw [receive_dispatched] at hnew
    exact ⟨⟨hest.init, hest.id⟩, new, hnew, hhave⟩
  | @answered c session hc hphase =>
    have hrec := h.receive c.msg.isInit r now
    refine ⟨⟨hrec.init, hrec.id⟩, [], ?_, haveSession_nil⟩
    rw [List.append_nil]
    exact receive_dispatched b c.msg.isInit r now

theorem Established.reinitReply [DecidableEq σ] {b : Bridge σ ι} (h : Established b) (r : Reply σ ι)
    (now : Nat) : Established (b.reinitReply r now) ∧
      ∃ new, (b.reinitReply r now).dispatched = b.dispatched ++ new ∧ HaveSession new := by
  unfold Bridge.reinitReply
  cases hflight : b.reinitInFlight with
  | none => exact ⟨h, [], (List.append_nil _).symm, haveSession_nil⟩
  | some prevId =>
    have hinit := (h.receive true r now).init
    simp only [receive_dispatched]
    have hid : (if decide ((b.receive true r now).sessionId ≠ none ∧ (b.receive true r now).sessionId ≠ prevId) then
        (b.receive true r now).sessionId else prevId) ≠ none := by
      split
      · rename_i hok
        exact (of_decide_eq_true hok).1
      · rename_i hok
        rintro rfl
        -- then there was an id all along
        have hne : b.sessionId ≠ none := h.id.resolve_right fun ⟨x, hx⟩ => by
          rw [hflight] at hx
          cases hx
        have := receive_sessionId_ne_none hne true r now
        exact hok (decide_eq_true ⟨this, this⟩)
    refine ⟨⟨hinit, .inl hid⟩, _, rfl, fun d hd _ => ?_⟩
    obtain ⟨c, -, rfl⟩ := List.mem_map.mp hd
    exact hid

section Runs

variable [DecidableEq σ] [DecidableEq ι] (staleMs : Nat)

/-- **One step**: what it sends has a session id iff no message is sent while there is none. -/
theorem Established.step {b : Bridge σ ι} (h : Established b) (e : Event σ ι) :
    Established (step staleMs b e) ∧ ∃ new, (step staleMs b e).dispatched = b.dispatched ++ new ∧
      (HaveSession new ↔ Lands staleMs b e) := by
  cases e with
  | handle msg now => exact h.handle staleMs msg now
  | reply k r now =>
    obtain ⟨hest, new, hnew, hhave⟩ := h.reply k r now
    exact ⟨hest, new, hnew, iff_of_true hhave trivial⟩
  | reinitReply r now =>
    obtain ⟨hest, new, hnew, hhave⟩ := h.reinitReply r now
    exact ⟨hest, new, hnew, iff_of_true hhave trivial⟩

/-- A run from there. -/
theorem Established.steps {b : Bridge σ ι} (h : Established b) (es : List (Event σ ι)) :
    ∃ new, (es.foldl (McpBridge.step staleMs) b).dispatched = b.dispatched ++ new ∧
      (HaveSession new ↔ Runs.Throughout (McpBridge.step staleMs) (Lands staleMs) b es) := by
  induction es generalizing b with
  | nil => exact ⟨[], (List.append_nil _).symm, iff_of_true haveSession_nil trivial⟩
  | cons e es ih =>
    obtain ⟨hest, new, hnew, hhave⟩ := h.step staleMs e
    obtain ⟨rest, hrest, hhave'⟩ := ih hest
    refine ⟨new ++ rest, ?_, ?_⟩
    · rw [List.foldl_cons, hrest, hnew, List.append_assoc]
    · unfold HaveSession at hhave hhave' ⊢
      rw [List.forall_mem_append, hhave, hhave']
      rfl

theorem step_replays {b : Bridge σ ι} (h : Replays b) (e : Event σ ι) : Replays (McpBridge.step staleMs b e) := by
  have hreinit : ∀ b : Bridge σ ι, Replays b → Replays b.reinit.1 := fun b h => by
    cases hwait : b.reinit.2 with
    | false => rwa [reinit_of_false hwait]
    | true =>
      rcases reinit_of_true hwait with ⟨hsame, -⟩ | ⟨init, -, -, heq⟩
      · rwa [hsame]
      · rw [heq]
        exact h
  have hreceive : ∀ isInit r now, Replays (b.receive isInit r now) := fun isInit r now => by
    unfold Replays
    rw [receive_initMessage]
    exact h
  cases e with
  | handle msg now =>
    have hstep := handle_step staleMs b msg now
    change Replays (b.handle staleMs msg now)
    generalize b.handle staleMs msg now = b' at hstep ⊢
    cases hstep with
    | waits => exact hreinit b h
    | init hinit =>
      intro m hm
      obtain rfl : msg = m := Option.some.inj hm
      exact hinit
    | sends => exact h
  | reply k r now =>
    have hstep := reply_step b k r now
    change Replays (b.reply k r now)
    generalize b.reply k r now = b' at hstep ⊢
    cases hstep with
    | idle => exact h
    | lost => exact hreinit _ (hreceive false r now)
    | answered => exact hreceive _ r now
  | reinitReply r now =>
    change Replays (b.reinitReply r now)
    unfold Bridge.reinitReply
    split
    · exact h
    · exact hreceive true r now

theorem run_replays (now : Nat) (es : List (Event σ ι)) : Replays (run staleMs now es) :=
  have hkeep : ∀ (b : Bridge σ ι) (e : Event σ ι), Replays b → Replays (McpBridge.step staleMs b e) :=
    fun _ e h => step_replays staleMs h e
  have hfresh : Replays (Bridge.fresh now : Bridge σ ι) := fun _ h => by cases h
  Runs.invariant hkeep hfresh es

/-- **After the first `initialize` every other request has a session id iff none is sent while there is none.** -/
theorem session_header_iff (now : Nat) (es es' : List (Event σ ι))
    (hfirst : (run staleMs now es).sessionId ≠ none) :
    HaveSession ((run staleMs now (es ++ es')).dispatched.drop (run staleMs now es).dispatched.length) ↔
      Runs.Throughout (McpBridge.step staleMs) (Lands staleMs) (run staleMs now es) es' := by
  have hest : Established (run staleMs now es) := ⟨run_replays staleMs now es, .inl hfirst⟩
  obtain ⟨new, hnew, hhave⟩ := hest.steps staleMs es'
  rw [← hhave]
  unfold run at hnew ⊢
  rw [List.foldl_append, hnew, List.drop_left]

end Runs

/-! ## Two runs -/

/-- The client's first message. -/
def initRequest : Request Nat := ⟨.value 0, true, true⟩

/-- A request with this id. -/
def request (id : Nat) : Request Nat := ⟨.value id, false, true⟩

/-- The reply to an `initialize` that opens a session. -/
def opened (session : Nat) : Reply Nat Nat := ⟨some session, .messages [some ⟨.value 0, none, some "2025-06-18"⟩]⟩

/-- The reply to a request whose session is gone. -/
def notFound : Reply Nat Nat :=
  ⟨none, .messages [some ⟨.null, some (sessionNotFound, "MCP endpoint returned HTTP 404"), none⟩]⟩

/-- The first session. -/
def firstSession : List (Event Nat Nat) := [.handle initRequest 0, .reply 0 (opened 7) 1]

/-- The session is lost and replaced, and then the next request comes. -/
theorem session_header_iff_healed :
    HaveSession ((run 9000 0 (firstSession ++
        [.handle (request 1) 2, .reply 1 notFound 3, .reinitReply (opened 8) 4, .handle (request 2) 5])).dispatched.drop
          (run 9000 0 firstSession).dispatched.length) ↔
      Runs.Throughout (step 9000) (Lands 9000) (run 9000 0 firstSession)
        [.handle (request 1) 2, .reply 1 notFound 3, .reinitReply (opened 8) 4, .handle (request 2) 5] :=
  session_header_iff 9000 0 firstSession
    [.handle (request 1) 2, .reply 1 notFound 3, .reinitReply (opened 8) 4, .handle (request 2) 5] (by decide)

/-- The next request comes while the re-init awaits its reply: it is sent without a session id. -/
theorem sent_without_session :
    (run 9000 0 firstSession).sessionId ≠ none ∧ ¬ HaveSession ((run 9000 0 (firstSession ++
      [.handle (request 1) 2, .reply 1 notFound 3, .handle (request 2) 4])).dispatched.drop
        (run 9000 0 firstSession).dispatched.length) := by
  decide

end Unimatrix.McpBridge
