import Mathlib.Data.List.Nodup
import Mathlib.Data.List.Perm.Subperm
import Unimatrix.Bridge.Session

/-!
# Lost sessions, retries and answers

The bridge together with the evictions of its sessions (`System`). In every run a call sends its request at most
twice, and nothing else is sent but `initialize` (`Logged`); it waits for something as long as it has no answer, and
keeps the answer it has; the answer has no internal code (`answer_code`) and the request's own id where the last reply
has it, has nothing, or reports a lost session (`answer_id`).

A re-init replaces a session that the server has evicted, or one that the bridge gives up while the server still has
it (`System.givesUp`: after dormancy, or after a request sent in it was lost). Where no lost reply comes late
(`Regular`), each successful one replaces another such session (`Counts`). Hence **`healing`**.
-/

namespace Unimatrix.McpBridge

variable {σ ι : Type}

/-! ## Answers -/

theorem orNull_of_value {id : MsgId ι} (h : id.isNull = false) : id.orNull = id := by
  cases id with
  | value id => rfl
  | undefined => cases h
  | null => cases h

section Answers

variable [DecidableEq ι] (msg : Request ι) (out : List (Option (Message ι)))

/-- A request has an answer, a notification has none. -/
theorem answer_isSome : (answer msg out).isSome = !msg.id.isNull := by
  unfold answer
  cases msg.id.isNull with
  | true => rfl
  | false =>
    simp only [Bool.false_eq_true, if_false]
    split <;> rfl

/-- **No internal code reaches the client.** -/
theorem answer_code {m : Message ι} (h : answer msg out = some m) :
    ∀ e ∈ m.error, e.1 ≠ sessionNotFound ∧ e.1 ≠ transportTimeout := by
  unfold answer at h
  split at h
  · cases h
  · simp only at h
    split at h
    · obtain rfl := Option.some.inj h
      intro e he
      have hcode : e.1 = internalError := (congrArg Prod.fst (Option.some.inj he)).symm
      rw [hcode]
      exact ⟨by decide, by decide⟩
    · rename_i hnone
      obtain rfl := Option.some.inj h
      intro e he
      rw [Option.mem_def.mp he] at hnone
      have htext : sentinelText e.1 = none := hnone
      unfold sentinelText at htext
      split at htext
      · cases htext
      · split at htext
        · cases htext
        · rename_i h₁ h₂
          exact ⟨h₁, h₂⟩

variable {out} in
theorem id_of_correlateById {id : MsgId ι} {m : Message ι} (h : correlateById out id = some m) : m.id = id := by
  unfold correlateById at h
  simpa using List.find?_some h

/-- **The answer has the id of the request** where the last reply has it, has nothing, or reports a lost session. -/
theorem answer_id {m : Message ι} (h : answer msg out = some m)
    (hown : (correlateById out msg.id).isSome ∨ out.head?.join = none ∨ lostId out msg.id) :
    m.id = msg.id := by
  unfold answer at h
  split at h
  · cases h
  · rename_i hnull
    have hid : msg.id.orNull = msg.id := orNull_of_value (Bool.eq_false_iff.mpr hnull)
    simp only at h
    split at h
    · obtain rfl := Option.some.inj h
      exact hid
    · rename_i hnone
      obtain rfl := Option.some.inj h
      cases hfind : correlateById out msg.id with
      | some m =>
        have hm : correlated out msg.id = some m := by
          unfold correlated
          rw [hfind]
          rfl
        rw [hm, Option.getD_some]
        exact id_of_correlateById hfind
      | none =>
        have hhead : correlated out msg.id = out.head?.join := by
          unfold correlated
          rw [hfind]
          exact Option.none_or
        rcases hown with hown | hown | hown
        · rw [hfind] at hown
          cases hown
        · rw [hhead, hown]
          exact hid
        · -- a lost session is reported with the request's id
          unfold lostId at hown
          split at hown
          · rename_i hcorr
            rw [hcorr, Option.getD_some] at hnone
            simp only [Option.bind_some] at hnone
            rw [hnone] at hown
            cases hown
          · cases hown

/-- Where the transport fails, the last reply is one with the request's id. -/
theorem correlateById_outOf {outcome : Outcome ι} (h : ∀ out, outcome ≠ .messages out)
    (hnull : msg.id.isNull = false) : (correlateById (outOf msg outcome) msg.id).isSome := by
  have hid := orNull_of_value hnull
  have hone : ∀ code text, (correlateById [some (jsonRpcError msg.id.orNull code text)] msg.id).isSome := by
    intro code text
    have hrpc : (jsonRpcError msg.id.orNull code text).id = msg.id := by
      unfold jsonRpcError
      rw [hid, hid]
    unfold correlateById
    rw [List.reduceOption_cons_of_some, List.reduceOption_nil, List.find?_cons, hrpc, decide_eq_true rfl]
    rfl
  cases outcome with
  | messages out => exact absurd rfl (h out)
  | timedOut => exact hone _ _
  | failed => exact hone _ _

end Answers

/-! ## Calls -/

/-- What holds of a call in every phase: how often it has sent its request, that a re-init is in flight where it waits
for one, and that one has succeeded where it has retried. -/
def Call.Steady (b : Bridge σ ι) (c : Call σ ι) : Prop :=
  match c.phase with
  | .dormant => c.sends = 0 ∧ c.msg.isInit = false ∧ b.reinitInFlight ≠ none
  | .sent _ => c.sends = 1
  | .lost _ => c.sends = 1 ∧ c.msg.isInit = false ∧ b.reinitInFlight ≠ none
  | .resent _ => c.sends = 2 ∧ c.msg.isInit = false ∧ b.healed ≠ []
  | .done _ => c.sends ≤ 2 ∧ (c.msg.isInit → c.sends ≤ 1) ∧ (c.sends = 2 → b.healed ≠ [])

/-- A call stays so while the re-init goes on and what has succeeded has. -/
theorem Call.Steady.mono {b b' : Bridge σ ι} {c : Call σ ι} (h : c.Steady b)
    (hflight : b.reinitInFlight ≠ none → b'.reinitInFlight ≠ none) (hhealed : b.healed ≠ [] → b'.healed ≠ []) :
    c.Steady b' := by
  unfold Call.Steady at h ⊢
  split at h
  · exact ⟨h.1, h.2.1, hflight h.2.2⟩
  · exact h
  · exact ⟨h.1, h.2.1, hflight h.2.2⟩
  · exact ⟨h.1, h.2.1, hhealed h.2.2⟩
  · exact ⟨h.1, h.2.1, fun hs => hhealed (h.2.2 hs)⟩

/-- A call that sends its first request. -/
theorem Call.first_steady (b : Bridge σ ι) (session : Option σ) {c : Call σ ι} (h : c.sends = 0) :
    (c.first session).Steady b := by
  unfold Call.first
  split
  · exact congrArg (· + 1) h
  · exact ⟨by simp only [h]; omega, fun _ => by simp only [h]; omega, fun hs => by simp only [h] at hs; cases hs⟩

/-- A call that gives up after its first request. -/
theorem Call.gives_up {b : Bridge σ ι} {c : Call σ ι} (hsends : c.sends = 1) (out : List (Option (Message ι))) :
    Call.Steady b { c with phase := .done out } :=
  ⟨Nat.le_trans (Nat.le_of_eq hsends) (by decide), fun _ => Nat.le_of_eq hsends,
    fun hs => absurd (hsends.symm.trans hs) (by decide)⟩

/-- Every call is in order. -/
def Steady (b : Bridge σ ι) : Prop := ∀ c ∈ b.calls, c.Steady b

theorem Steady.reinit {b : Bridge σ ι} (h : Steady b) : Steady b.reinit.1 := by
  intro c hc
  rw [reinit_calls] at hc
  exact (h c hc).mono (fun hflight => reinit_inFlight (.inr hflight)) fun hhealed => by rwa [reinit_healed]

theorem Steady.receive {b : Bridge σ ι} (h : Steady b) (isInit : Bool) (r : Reply σ ι) (now : Nat) :
    Steady (b.receive isInit r now) := by
  intro c hc
  rw [receive_calls] at hc
  refine (h c hc).mono (fun hflight => ?_) fun hhealed => ?_
  · rwa [receive_reinitInFlight]
  · rwa [receive_healed]

/-- A call that comes in. -/
theorem Steady.concat {b : Bridge σ ι} (h : Steady b) {c : Call σ ι} (hc : c.Steady b) :
    ∀ c' ∈ b.calls ++ [c], c'.Steady b := by
  intro c' hc'
  rcases List.mem_append.mp hc' with hc' | hc'
  · exact h c' hc'
  · rwa [List.mem_singleton.mp hc']

/-- A call goes on to another phase. -/
theorem Steady.setPhase {b : Bridge σ ι} (h : Steady b) {k : Nat} {c : Call σ ι} {phase : Phase σ ι}
    (hc : b.calls[k]? = some c) (hphase : Call.Steady b { c with phase := phase }) :
    Steady (b.setPhase k phase) := by
  intro c' hc'
  have hc' : c' ∈ b.calls.modify k fun c => { c with phase := phase } := hc'
  obtain ⟨i, hi⟩ := List.mem_iff_getElem?.mp hc'
  rw [List.getElem?_modify] at hi
  split at hi
  · rename_i hk
    subst hk
    rw [hc] at hi
    obtain rfl := Option.some.inj hi
    exact hphase
  · exact h c' (List.mem_iff_getElem?.mpr ⟨i, by simpa using hi⟩)

theorem Steady.handle {b : Bridge σ ι} (h : Steady b) (staleMs : Nat) (msg : Request ι) (now : Nat) :
    Steady (b.handle staleMs msg now) := by
  have hstep := handle_step staleMs b msg now
  generalize b.handle staleMs msg now = b' at hstep ⊢
  cases hstep with
  | waits hstale hwait =>
    have hinit : msg.isInit = false := by
      unfold Bridge.stale at hstale
      simp only [Bool.and_eq_true, Bool.not_eq_true'] at hstale
      exact hstale.1.1
    exact h.reinit.concat (c := ⟨msg, .dormant, 0⟩) ⟨rfl, hinit, reinit_inFlight (.inl hwait)⟩
  | init hinit => exact h.concat (Call.first_steady b b.sessionId rfl)
  | sends hinit hstale => exact h.concat (Call.first_steady b b.sessionId rfl)

theorem Steady.reply [DecidableEq ι] {b : Bridge σ ι} (h : Steady b) (k : Nat) (r : Reply σ ι) (now : Nat) :
    Steady (b.reply k r now) := by
  have hstep := reply_step b k r now
  generalize b.reply k r now = b' at hstep ⊢
  cases hstep with
  | idle => exact h
  | @lost c session hc hphase hinit hlost =>
    have hsteady := h c (List.mem_of_getElem? hc)
    unfold Call.Steady at hsteady
    rw [hphase] at hsteady
    have hsends : c.sends = 1 := hsteady
    refine (h.receive false r now).reinit.setPhase (c := c) (by rw [reinit_calls, receive_calls]; exact hc) ?_
    split
    · rename_i hwait
      exact ⟨hsends, hinit, reinit_inFlight (.inl hwait)⟩
    · exact Call.gives_up hsends _
  | @answered c session hc hphase =>
    have hsteady := h c (List.mem_of_getElem? hc)
    refine (h.receive c.msg.isInit r now).setPhase (c := c) (by rw [receive_calls]; exact hc) ?_
    unfold Call.Steady at hsteady
    rcases hphase with hphase | hphase
    · rw [hphase] at hsteady
      have hsends : c.sends = 1 := hsteady
      exact Call.gives_up hsends _
    · rw [hphase] at hsteady
      obtain ⟨hsends, hinit, hhealed⟩ := hsteady
      refine ⟨Nat.le_of_eq hsends, fun hyes => ?_, fun _ => by rwa [receive_healed]⟩
      exact absurd (hyes.symm.trans hinit) Bool.noConfusion

/-- After a re-init nothing waits for one. -/
theorem Steady.reinitReply [DecidableEq σ] {b : Bridge σ ι} (h : Steady b) (r : Reply σ ι) (now : Nat) :
    Steady (b.reinitReply r now) := by
  unfold Bridge.reinitReply
  split
  · exact h
  · rename_i prevId hflight
    simp only [receive_calls, receive_healed]
    generalize decide ((b.receive true r now).sessionId ≠ none ∧ (b.receive true r now).sessionId ≠ prevId) = ok
    intro c' hc'
    obtain ⟨c, hc, rfl⟩ := List.mem_map.mp hc'
    have hsteady := h c hc
    unfold Call.resume
    unfold Call.Steady at hsteady
    split at hsteady
    · rename_i hphase
      simp only [hphase]
      exact Call.first_steady _ _ hsteady.1
    · rename_i session hphase
      simp only [hphase]
      unfold Call.Steady
      rw [hphase]
      exact hsteady
    · rename_i out hphase
      simp only [hphase]
      obtain ⟨hsends, hinit, -⟩ := hsteady
      cases ok with
      | true => exact ⟨congrArg (· + 1) hsends, hinit, List.append_ne_nil_of_right_ne_nil _ (List.cons_ne_nil _ _)⟩
      | false => exact Call.gives_up hsends out
    · rename_i session hphase
      simp only [hphase]
      unfold Call.Steady
      rw [hphase]
      refine ⟨hsteady.1, hsteady.2.1, ?_⟩
      cases ok with
      | true => exact List.append_ne_nil_of_right_ne_nil _ (List.cons_ne_nil _ _)
      | false => exact hsteady.2.2
    · rename_i out hphase
      simp only [hphase]
      unfold Call.Steady
      rw [hphase]
      refine ⟨hsteady.1, hsteady.2.1, fun hs => ?_⟩
      cases ok with
      | true => exact List.append_ne_nil_of_right_ne_nil _ (List.cons_ne_nil _ _)
      | false => exact hsteady.2.2 hs

theorem Steady.step [DecidableEq σ] [DecidableEq ι] {b : Bridge σ ι} (h : Steady b) (staleMs : Nat)
    (e : Event σ ι) : Steady (McpBridge.step staleMs b e) := by
  cases e with
  | handle msg now => exact h.handle staleMs msg now
  | reply k r now => exact h.reply k r now
  | reinitReply r now => exact h.reinitReply r now

/-- What a call owes: at most two requests, the second after a re-init that succeeded, and the answer. -/
structure Call.Sound [DecidableEq ι] (b : Bridge σ ι) (c : Call σ ι) : Prop where
  sends : c.sends ≤ 2 ∧ (c.msg.isInit → c.sends ≤ 1) ∧ (c.sends = 2 → b.healed ≠ [])
  answered : ∀ out, c.phase = .done out → (answer c.msg out).isSome = !c.msg.id.isNull
  code : ∀ out, c.phase = .done out → ∀ m ∈ answer c.msg out, ∀ e ∈ m.error,
    e.1 ≠ sessionNotFound ∧ e.1 ≠ transportTimeout
  id : ∀ out, c.phase = .done out → ∀ m ∈ answer c.msg out,
    (correlateById out c.msg.id).isSome ∨ out.head?.join = none ∨ lostId out c.msg.id → m.id = c.msg.id

theorem Call.Steady.sound [DecidableEq ι] {b : Bridge σ ι} {c : Call σ ι} (h : c.Steady b) : c.Sound b where
  sends := by
    unfold Call.Steady at h
    split at h
    · exact ⟨by omega, fun _ => by omega, fun hs => absurd (h.1.symm.trans hs) (by decide)⟩
    · exact ⟨by omega, fun _ => by omega, fun hs => absurd (h.symm.trans hs) (by decide)⟩
    · exact ⟨by omega, fun _ => by omega, fun hs => absurd (h.1.symm.trans hs) (by decide)⟩
    · exact ⟨by omega, fun hinit => absurd (hinit.symm.trans h.2.1) (by decide), fun _ => h.2.2⟩
    · exact h
  answered out _ := answer_isSome c.msg out
  code out _ m hm := answer_code c.msg out hm
  id out _ m hm hown := answer_id c.msg out hm hown

/-- Something is awaited from the network. -/
def Awaits (b : Bridge σ ι) : Prop :=
  b.reinitInFlight ≠ none ∨ ∃ c ∈ b.calls, ∃ session, c.phase = .sent session ∨ c.phase = .resent session

/-- Where nothing is awaited every call is done. -/
theorem Steady.done {b : Bridge σ ι} (h : Steady b) (hno : ¬ Awaits b) :
    ∀ c ∈ b.calls, ∃ out, c.phase = .done out := by
  intro c hc
  have hsteady := h c hc
  unfold Call.Steady at hsteady
  cases hphase : c.phase with
  | dormant =>
    rw [hphase] at hsteady
    exact absurd (.inl hsteady.2.2) hno
  | sent session => exact absurd (.inr ⟨c, hc, session, .inl hphase⟩) hno
  | lost out =>
    rw [hphase] at hsteady
    exact absurd (.inl hsteady.2.2) hno
  | resent session => exact absurd (.inr ⟨c, hc, session, .inr hphase⟩) hno
  | done out => exact ⟨out, rfl⟩

/-- A call that comes in is put behind the others. -/
theorem handle_calls (staleMs : Nat) (b : Bridge σ ι) (msg : Request ι) (now : Nat) :
    ∃ c, (b.handle staleMs msg now).calls = b.calls ++ [c] := by
  have hstep := handle_step staleMs b msg now
  generalize b.handle staleMs msg now = b' at hstep ⊢
  cases hstep with
  | waits hstale hwait => exact ⟨_, by rw [reinit_calls]⟩
  | init hinit => exact ⟨_, rfl⟩
  | sends hinit hstale => exact ⟨_, rfl⟩

theorem setPhase_calls_of_ne (b : Bridge σ ι) {k k' : Nat} (h : k' ≠ k) (phase : Phase σ ι) :
    (b.setPhase k' phase).calls[k]? = b.calls[k]? :=
  List.getElem?_modify_ne _ _ h

/-- No reply changes a call that has its answer. -/
theorem reply_calls_of_done [DecidableEq ι] {b : Bridge σ ι} {k : Nat} {c : Call σ ι}
    {out : List (Option (Message ι))} (hc : b.calls[k]? = some c) (hdone : c.phase = .done out) (k' : Nat)
    (r : Reply σ ι) (now : Nat) : (b.reply k' r now).calls[k]? = some c := by
  have hstep := reply_step b k' r now
  generalize b.reply k' r now = b' at hstep ⊢
  cases hstep with
  | idle => exact hc
  | @lost c' session hc' hphase hinit hlost =>
    have hne : k' ≠ k := by
      rintro rfl
      obtain rfl : c = c' := Option.some.inj (hc.symm.trans hc')
      rw [hdone] at hphase
      cases hphase
    rw [setPhase_calls_of_ne _ hne, reinit_calls, receive_calls, hc]
  | @answered c' session hc' hphase =>
    have hne : k' ≠ k := by
      rintro rfl
      obtain rfl : c = c' := Option.some.inj (hc.symm.trans hc')
      rw [hdone] at hphase
      rcases hphase with hphase | hphase <;> cases hphase
    rw [setPhase_calls_of_ne _ hne, receive_calls, hc]

/-- **A call that has its answer keeps it.** -/
theorem done_kept [DecidableEq σ] [DecidableEq ι] {b : Bridge σ ι} {k : Nat} {c : Call σ ι}
    {out : List (Option (Message ι))} (hc : b.calls[k]? = some c) (hdone : c.phase = .done out) (staleMs : Nat)
    (e : Event σ ι) : (step staleMs b e).calls[k]? = some c := by
  cases e with
  | handle msg now =>
    obtain ⟨new, hnew⟩ := handle_calls staleMs b msg now
    change (b.handle staleMs msg now).calls[k]? = some c
    rw [hnew, List.getElem?_append_left (List.getElem?_eq_some_iff.mp hc).1, hc]
  | reply k' r now => exact reply_calls_of_done hc hdone k' r now
  | reinitReply r now =>
    change (b.reinitReply r now).calls[k]? = some c
    unfold Bridge.reinitReply
    split
    · exact hc
    · simp only [receive_calls]
      rw [List.getElem?_map, hc, Option.map_some]
      unfold Call.resume
      rw [hdone]

/-! ## What is sent -/

/-- The requests that a call has sent. -/
def Call.copies (c : Call σ ι) : List (Request ι) := List.replicate c.sends c.msg

section Log

variable [DecidableEq ι]

/-- The requests that were sent are those of the calls and `initialize` requests. -/
def Logged (b : Bridge σ ι) : Prop :=
  ∀ m : Request ι, m.isInit = false →
    (b.dispatched.map Dispatch.msg).count m = (b.calls.flatMap Call.copies).count m

/-- An `initialize` does not count. -/
theorem count_init {m init : Request ι} (hm : m.isInit = false) (hinit : init.isInit = true) (n : Nat) :
    (List.replicate n init).count m = 0 := by
  refine List.count_eq_zero_of_not_mem fun hmem => ?_
  rw [List.eq_of_mem_replicate hmem, hinit] at hm
  cases hm

theorem Logged.reinit {b : Bridge σ ι} (h : Logged b) (hreplays : Replays b) : Logged b.reinit.1 := by
  intro m hm
  rw [reinit_calls, ← h m hm]
  cases hwait : b.reinit.2 with
  | false => rw [reinit_of_false hwait]
  | true =>
    rcases reinit_of_true hwait with ⟨hsame, -⟩ | ⟨init, hinit, -, heq⟩
    · rw [hsame]
    · have hnone := count_init hm (hreplays init hinit) 1
      rw [heq]
      simp only [List.map_append, List.count_append]
      exact Nat.add_eq_left.mpr hnone

theorem Logged.receive {b : Bridge σ ι} (h : Logged b) (isInit : Bool) (r : Reply σ ι) (now : Nat) :
    Logged (b.receive isInit r now) := by
  intro m hm
  rw [receive_dispatched, receive_calls]
  exact h m hm

omit [DecidableEq ι] in
theorem copies_setPhase (b : Bridge σ ι) (k : Nat) (phase : Phase σ ι) :
    (b.setPhase k phase).calls.flatMap Call.copies = b.calls.flatMap Call.copies := by
  have hmap : (b.setPhase k phase).calls.map Call.copies = b.calls.map Call.copies := by
    refine List.ext_getElem? fun i => ?_
    unfold Bridge.setPhase
    simp only [List.getElem?_map, List.getElem?_modify]
    cases b.calls[i]? with
    | none => rfl
    | some c =>
      simp only [Option.map_eq_map, Option.map_some]
      split <;> rfl
  rw [List.flatMap_def, hmap, ← List.flatMap_def]

theorem Logged.setPhase {b : Bridge σ ι} (h : Logged b) (k : Nat) (phase : Phase σ ι) :
    Logged (b.setPhase k phase) := by
  intro m hm
  rw [copies_setPhase]
  exact h m hm

/-- A call that comes in, and its request if it is sent at once. -/
theorem Logged.first {b : Bridge σ ι} (h : Logged b) (msg : Request ι) (session : Option σ) (d : Dispatch σ ι)
    (hd : d.msg = msg) (m : Request ι) (hm : m.isInit = false) :
    ((if msg.fits then b.dispatched ++ [d] else b.dispatched).map Dispatch.msg).count m =
      ((b.calls ++ [Call.first session ⟨msg, .dormant, 0⟩]).flatMap Call.copies).count m := by
  unfold Call.first
  rw [List.flatMap_append, List.count_append, ← h m hm]
  simp only
  split
  · rw [List.map_append, List.count_append, List.map_singleton, hd]
    rfl
  · rfl

theorem Logged.handle {b : Bridge σ ι} (h : Logged b) (hreplays : Replays b) (staleMs : Nat) (msg : Request ι)
    (now : Nat) : Logged (b.handle staleMs msg now) := by
  have hstep := handle_step staleMs b msg now
  generalize b.handle staleMs msg now = b' at hstep ⊢
  cases hstep with
  | waits hstale hwait =>
    intro m hm
    simp only [List.flatMap_append, List.count_append]
    exact h.reinit hreplays m hm
  | init hinit => exact fun m hm => h.first msg b.sessionId (b.headers msg) rfl m hm
  | sends hinit hstale => exact fun m hm => h.first msg b.sessionId (b.headers msg) rfl m hm

theorem Logged.reply {b : Bridge σ ι} (h : Logged b) (hreplays : Replays b) (k : Nat) (r : Reply σ ι) (now : Nat) :
    Logged (b.reply k r now) := by
  have hstep := reply_step b k r now
  generalize b.reply k r now = b' at hstep ⊢
  cases hstep with
  | idle => exact h
  | lost hc hphase hinit hlost =>
    refine ((h.receive false r now).reinit ?_).setPhase k _
    unfold Replays
    rwa [receive_initMessage]
  | @answered c session hc hphase => exact (h.receive c.msg.isInit r now).setPhase k _

/-- What the calls send when a re-init is over. -/
theorem copies_resume (ok : Bool) (session : Option σ) (calls : List (Call σ ι)) (m : Request ι) :
    ((calls.map (Call.resume ok session)).flatMap Call.copies).count m =
      (calls.flatMap Call.copies).count m + ((calls.filter (Call.resumes ok)).map Call.msg).count m := by
  have hone : ∀ c : Call σ ι, (c.resume ok session).copies.count m =
      c.copies.count m + (if c.resumes ok then [c.msg] else []).count m := by
    intro c
    unfold Call.resume Call.resumes Call.copies
    cases c.phase with
    | dormant =>
      simp only
      unfold Call.first
      split
      · rw [List.replicate_succ', List.count_append]
      · rfl
    | lost out =>
      cases ok with
      | true => exact (congrArg _ List.replicate_succ').trans List.count_append
      | false => rfl
    | sent session => rfl
    | resent session => rfl
    | done out => rfl
  induction calls with
  | nil => rfl
  | cons c calls ih =>
    have hcons : ∀ l : List (Request ι), (c.msg :: l).count m = [c.msg].count m + l.count m := fun l => by
      rw [← List.count_append, List.singleton_append]
    rw [List.map_cons, List.flatMap_cons, List.flatMap_cons, List.count_append, List.count_append, ih, hone]
    by_cases hc : c.resumes ok = true
    · rw [if_pos hc, List.filter_cons_of_pos hc, List.map_cons,
        hcons ((calls.filter (Call.resumes ok)).map Call.msg)]
      omega
    · rw [if_neg hc, List.filter_cons_of_neg hc, List.count_nil]
      omega

theorem Logged.reinitReply [DecidableEq σ] {b : Bridge σ ι} (h : Logged b) (r : Reply σ ι) (now : Nat) :
    Logged (b.reinitReply r now) := by
  have hrec := h.receive true r now
  unfold Bridge.reinitReply
  split
  · exact h
  · intro m hm
    generalize b.receive true r now = b' at hrec
    simp only
    rw [copies_resume, List.map_append, List.count_append, ← hrec m hm, List.map_map]
    rfl

theorem Logged.step [DecidableEq σ] {b : Bridge σ ι} (h : Logged b) (hreplays : Replays b) (staleMs : Nat)
    (e : Event σ ι) : Logged (McpBridge.step staleMs b e) := by
  cases e with
  | handle msg now => exact h.handle hreplays staleMs msg now
  | reply k r now => exact h.reply hreplays k r now
  | reinitReply r now => exact h.reinitReply r now

end Log

/-! ## Evictions -/

/-- The bridge, the ids of its sessions that the server has evicted, and those of sessions that the bridge gave up while
the server still had them. -/
structure System (σ ι : Type) where
  bridge : Bridge σ ι
  evicted : List σ
  givenUp : List (Option σ)

/-- A step of the bridge, or an eviction. -/
inductive SystemEvent (σ ι : Type) where
  | bridge (e : Event σ ι)
  | evict (x : σ)

/-- The session id a call's request was sent with, while it awaits the reply. -/
def Phase.sentWith : Phase σ ι → Option (Option σ)
  | .sent session => some session
  | _ => none

section Systems

variable [DecidableEq σ] [DecidableEq ι] (staleMs : Nat)

/-- A reply that counts as lost is in time: its request was sent in the current session, or a re-init is in flight. -/
def Timely (b : Bridge σ ι) : Event σ ι → Prop
  | .reply k r _ =>
    ∀ c ∈ b.calls[k]?, ∀ session ∈ c.phase.sentWith, c.msg.isInit = false →
      lostId (outOf c.msg r.outcome) c.msg.id → session = b.sessionId ∨ b.reinitInFlight ≠ none
  | _ => True

/-- A new session has a new id. -/
def Fresh (b : Bridge σ ι) : Event σ ι → Prop
  | .handle _ _ => True
  | .reply k r _ => ∀ c ∈ b.calls[k]?, c.msg.isInit → ∀ x ∈ r.sessionHeader, x ∉ b.established
  | .reinitReply r _ => ∀ x ∈ r.sessionHeader, x ∉ b.established

instance (b : Bridge σ ι) : (e : Event σ ι) → Decidable (Timely b e)
  | .handle _ _ => isTrue trivial
  | .reply k r _ =>
    inferInstanceAs (Decidable (∀ c ∈ b.calls[k]?, ∀ session ∈ c.phase.sentWith, c.msg.isInit = false →
      lostId (outOf c.msg r.outcome) c.msg.id → session = b.sessionId ∨ b.reinitInFlight ≠ none))
  | .reinitReply _ _ => isTrue trivial

instance (b : Bridge σ ι) : (e : Event σ ι) → Decidable (Fresh b e)
  | .handle _ _ => isTrue trivial
  | .reply k r _ =>
    inferInstanceAs (Decidable (∀ c ∈ b.calls[k]?, c.msg.isInit → ∀ x ∈ r.sessionHeader, x ∉ b.established))
  | .reinitReply r _ => inferInstanceAs (Decidable (∀ x ∈ r.sessionHeader, x ∉ b.established))

/-- The session that the step gives up: the dormancy check, or a reply to a request that was sent in it, starts a
re-init while the server still has the session. -/
def System.givesUp (s : System σ ι) (e : Event σ ι) : Option (Option σ) :=
  if s.bridge.reinitInFlight = none ∧ Timely s.bridge e then
    (McpBridge.step staleMs s.bridge e).reinitInFlight.filter fun p => p ∉ s.evicted.map some
  else none

/-- One step. -/
def System.step (s : System σ ι) : SystemEvent σ ι → System σ ι
  | .bridge e =>
    { s with
      bridge := McpBridge.step staleMs s.bridge e
      givenUp := s.givenUp ++ (s.givesUp staleMs e).toList }
  | .evict x => { s with evicted := s.evicted ++ [x] }

/-- A run from a new bridge. -/
def system (now : Nat) (es : List (SystemEvent σ ι)) : System σ ι :=
  es.foldl (System.step staleMs) ⟨.fresh now, [], []⟩

/-- The server evicts what it has opened and opens sessions under new ids, and no lost reply comes late. -/
def Regular (s : System σ ι) : SystemEvent σ ι → Prop
  | .evict x => x ∈ s.bridge.established
  | .bridge e => Fresh s.bridge e ∧ Timely s.bridge e

instance (s : System σ ι) : (e : SystemEvent σ ι) → Decidable (Regular s e)
  | .evict x => inferInstanceAs (Decidable (x ∈ s.bridge.established))
  | .bridge e => inferInstanceAs (Decidable (Fresh s.bridge e ∧ Timely s.bridge e))

end Systems

/-- The sessions that are gone for the bridge. -/
def System.gone (s : System σ ι) : List (Option σ) := s.evicted.map some ++ s.givenUp

/-- The sessions that re-inits have replaced are different ones, and gone; neither the current session is one of them
nor the one that a re-init in flight replaces. -/
structure Counts (b : Bridge σ ι) (gone : List (Option σ)) : Prop where
  nodup : b.healed.Nodup
  healed : ∀ p ∈ b.healed, p ∈ gone ∧ ∀ x ∈ p, x ∈ b.established
  current : ∀ x ∈ b.sessionId, x ∈ b.established ∧ some x ∉ b.healed
  settled : b.reinitInFlight = none → b.sessionId ∉ b.healed
  window : ∀ p ∈ b.reinitInFlight, p ∈ gone ∧ p ∉ b.healed ∧ ∀ x ∈ p, x ∈ b.established

namespace Counts

variable {b : Bridge σ ι} {gone : List (Option σ)}

/-- There are no more of them than are gone. -/
theorem length_le (h : Counts b gone) : b.healed.length ≤ gone.length :=
  (List.subperm_of_subset h.nodup fun p hp => (h.healed p hp).1).length_le

theorem mono (h : Counts b gone) {gone' : List (Option σ)} (hsub : gone ⊆ gone') : Counts b gone' where
  nodup := h.nodup
  healed p hp := ⟨hsub (h.healed p hp).1, (h.healed p hp).2⟩
  current := h.current
  settled := h.settled
  window p hp := ⟨hsub (h.window p hp).1, (h.window p hp).2⟩

/-- What the calls are at does not count. -/
theorem setPhase (h : Counts b gone) (k : Nat) (phase : Phase σ ι) : Counts (b.setPhase k phase) gone :=
  ⟨h.nodup, h.healed, h.current, h.settled, h.window⟩

/-- A re-init starts on a session that is gone. -/
theorem reinit (h : Counts b gone)
    (hgone : b.reinitInFlight = none → ∀ p ∈ b.reinit.1.reinitInFlight, p ∈ gone) : Counts b.reinit.1 gone := by
  cases hwait : b.reinit.2 with
  | false => rwa [reinit_of_false hwait]
  | true =>
    rcases reinit_of_true hwait with ⟨hsame, -⟩ | ⟨init, -, hnone, heq⟩
    · rwa [hsame]
    · have hcurrent := hgone hnone
      rw [heq] at hcurrent ⊢
      refine ⟨h.nodup, h.healed, (fun x hx => by cases hx), (fun hno => by cases hno), fun p hp => ?_⟩
      obtain rfl : b.sessionId = p := Option.some.inj hp
      exact ⟨hcurrent _ rfl, h.settled hnone, fun x hx => (h.current x hx).1⟩

theorem receive (h : Counts b gone) (isInit : Bool) (r : Reply σ ι) (now : Nat)
    (hfresh : isInit → ∀ x ∈ r.sessionHeader, x ∉ b.established) : Counts (b.receive isInit r now) gone := by
  have hsub : ∀ x ∈ b.established, x ∈ (b.receive isInit r now).established := fun x hx => by
    rw [receive_established]
    split
    · exact List.mem_append_left _ hx
    · exact hx
  -- a new id is none of those replaced
  have hnew : isInit → ∀ x ∈ r.sessionHeader, some x ∉ b.healed := fun hinit x hx hmem =>
    hfresh hinit x hx ((h.healed _ hmem).2 x rfl)
  refine ⟨by rw [receive_healed]; exact h.nodup, fun p hp => ?_, fun x hx => ?_, fun hnone => ?_, fun p hp => ?_⟩
  · rw [receive_healed] at hp
    exact ⟨(h.healed p hp).1, fun x hx => hsub x ((h.healed p hp).2 x hx)⟩
  · rw [receive_sessionId] at hx
    rw [receive_healed, receive_established]
    split at hx
    · rename_i hinit
      rw [if_pos hinit]
      rcases Option.or_eq_some_iff.mp hx with hheader | ⟨-, hold⟩
      · exact ⟨List.mem_append_right _ (Option.mem_toList.mpr hheader), hnew hinit x hheader⟩
      · exact ⟨List.mem_append_left _ (h.current x hold).1, (h.current x hold).2⟩
    · rename_i hinit
      rw [if_neg hinit]
      exact h.current x hx
  · rw [receive_reinitInFlight] at hnone
    rw [receive_sessionId, receive_healed]
    split
    · rename_i hinit
      cases hheader : r.sessionHeader with
      | some x => exact hnew hinit x hheader
      | none => exact h.settled hnone
    · exact h.settled hnone
  · rw [receive_reinitInFlight] at hp
    rw [receive_healed]
    obtain ⟨hgone, hnot, hest⟩ := h.window p hp
    exact ⟨hgone, hnot, fun x hx => hsub x (hest x hx)⟩

theorem reinitReply [DecidableEq σ] (h : Counts b gone) (r : Reply σ ι) (now : Nat)
    (hfresh : ∀ x ∈ r.sessionHeader, x ∉ b.established) : Counts (b.reinitReply r now) gone := by
  have hrec := h.receive true r now fun _ => hfresh
  unfold Bridge.reinitReply
  split
  · exact h
  · rename_i prevId hflight
    obtain ⟨hgone, hnot, hest⟩ := hrec.window prevId (by rw [receive_reinitInFlight]; exact hflight)
    simp only
    generalize b.receive true r now = b' at hrec hest hnot ⊢
    by_cases hok : b'.sessionId ≠ none ∧ b'.sessionId ≠ prevId
    · -- the session is replaced
      rw [decide_eq_true hok]
      simp only [if_true]
      have hcurrent : ∀ x ∈ b'.sessionId, some x ∉ b'.healed ++ [prevId] := fun x hx hmem => by
        rcases List.mem_append.mp hmem with hmem | hmem
        · exact (hrec.current x hx).2 hmem
        · exact hok.2 (hx.trans (List.mem_singleton.mp hmem))
      obtain ⟨x, hx⟩ := Option.ne_none_iff_exists'.mp hok.1
      refine ⟨List.nodup_append.mpr ⟨hrec.nodup, List.nodup_singleton _, ?_⟩, fun p hp => ?_,
        fun y hy => ⟨(hrec.current y hy).1, hcurrent y hy⟩, (fun _ => by rw [hx]; exact hcurrent x hx),
        fun p hp => by cases hp⟩
      · rintro p hp q hq rfl
        rw [List.mem_singleton.mp hq] at hp
        exact hnot hp
      · rcases List.mem_append.mp hp with hp | hp
        · exact hrec.healed p hp
        · rw [List.mem_singleton.mp hp]
          exact ⟨hgone, hest⟩
    · -- the old id is put back
      rw [decide_eq_false hok]
      simp only [Bool.false_eq_true, if_false]
      exact ⟨hrec.nodup, hrec.healed, fun y hy => ⟨hest y hy, by rwa [← Option.mem_def.mp hy]⟩, fun _ => hnot,
        fun p hp => by cases hp⟩

variable [DecidableEq ι] in
/-- A step of the bridge that starts re-inits only on sessions that are gone. -/
theorem step [DecidableEq σ] (staleMs : Nat) (h : Counts b gone) {e : Event σ ι} (hfresh : Fresh b e)
    (hgone : b.reinitInFlight = none → ∀ p ∈ (McpBridge.step staleMs b e).reinitInFlight, p ∈ gone) :
    Counts (McpBridge.step staleMs b e) gone := by
  cases e with
  | handle msg now =>
    have hstep := handle_step staleMs b msg now
    change b.reinitInFlight = none → ∀ p ∈ (b.handle staleMs msg now).reinitInFlight, p ∈ gone at hgone
    change Counts (b.handle staleMs msg now) gone
    generalize b.handle staleMs msg now = b' at hstep hgone ⊢
    cases hstep with
    | waits hstale hwait =>
      have hreinit := h.reinit hgone
      exact ⟨hreinit.nodup, hreinit.healed, hreinit.current, hreinit.settled, hreinit.window⟩
    | init hinit => exact ⟨h.nodup, h.healed, h.current, h.settled, h.window⟩
    | sends hinit hno => exact ⟨h.nodup, h.healed, h.current, h.settled, h.window⟩
  | reply k r now =>
    have hstep := reply_step b k r now
    change b.reinitInFlight = none → ∀ p ∈ (b.reply k r now).reinitInFlight, p ∈ gone at hgone
    change Counts (b.reply k r now) gone
    generalize b.reply k r now = b' at hstep hgone ⊢
    cases hstep with
    | idle => exact h
    | lost hc hphase hinit hlost =>
      have hrec := h.receive false r now fun hno => absurd hno Bool.false_ne_true
      exact (hrec.reinit (by rw [receive_reinitInFlight]; exact hgone)).setPhase k _
    | @answered c session hc hphase => exact (h.receive c.msg.isInit r now (hfresh c hc)).setPhase k _
  | reinitReply r now => exact h.reinitReply r now hfresh

end Counts

section Systems

variable [DecidableEq σ] [DecidableEq ι] (staleMs : Nat)

/-- A session on which a step starts a re-init is evicted, or given up. -/
theorem gone_of_starts {s : System σ ι} {e : Event σ ι} (ht : Timely s.bridge e)
    (hnone : s.bridge.reinitInFlight = none) :
    ∀ p ∈ (McpBridge.step staleMs s.bridge e).reinitInFlight, p ∈ (s.step staleMs (.bridge e)).gone := by
  intro p hp
  by_cases hevicted : p ∈ s.evicted.map some
  · exact List.mem_append_left _ hevicted
  · have hgives : s.givesUp staleMs e = some p := by
      unfold System.givesUp
      rw [if_pos ⟨hnone, ht⟩, Option.mem_def.mp hp, Option.filter_some, if_pos (decide_eq_true hevicted)]
    refine List.mem_append_right _ (List.mem_append_right _ ?_)
    rw [hgives]
    exact List.mem_singleton_self p

/-- **A regular step keeps the count.** -/
theorem step_counts {s : System σ ι} (h : Counts s.bridge s.gone) {e : SystemEvent σ ι} (he : Regular s e) :
    Counts (s.step staleMs e).bridge (s.step staleMs e).gone := by
  cases e with
  | evict x =>
    refine h.mono fun p hp => ?_
    change p ∈ (s.evicted ++ [x]).map some ++ s.givenUp
    rw [List.map_append]
    rcases List.mem_append.mp hp with hp | hp
    · exact List.mem_append_left _ (List.mem_append_left _ hp)
    · exact List.mem_append_right _ hp
  | bridge e =>
    have hsub : s.gone ⊆ (s.step staleMs (.bridge e)).gone := fun p hp => by
      rcases List.mem_append.mp hp with hp | hp
      · exact List.mem_append_left _ hp
      · exact List.mem_append_right _ (List.mem_append_left _ hp)
    exact (h.mono hsub).step staleMs he.1 (gone_of_starts staleMs he.2)

theorem system_counts {now : Nat} {es : List (SystemEvent σ ι)}
    (h : Runs.Throughout (System.step staleMs) Regular ⟨.fresh now, [], []⟩ es) :
    Counts (system staleMs now es).bridge (system staleMs now es).gone := by
  have hkeep : ∀ (s : System σ ι) (e : SystemEvent σ ι), Counts s.bridge s.gone → Regular s e →
      Counts (s.step staleMs e).bridge (s.step staleMs e).gone := fun _ _ hs he => step_counts staleMs hs he
  have hfresh : Counts (Bridge.fresh now : Bridge σ ι) (⟨.fresh now, [], []⟩ : System σ ι).gone :=
    ⟨List.nodup_nil, (fun p hp => by cases hp), (fun x hx => by cases hx), (fun _ hmem => by cases hmem),
      fun p hp => by cases hp⟩
  exact h.invariant hkeep hfresh

theorem system_steady (now : Nat) (es : List (SystemEvent σ ι)) : Steady (system staleMs now es).bridge := by
  have hkeep : ∀ (s : System σ ι) (e : SystemEvent σ ι), Steady s.bridge → Steady (s.step staleMs e).bridge := by
    intro s e hs
    cases e with
    | bridge e => exact hs.step staleMs e
    | evict x => exact hs
  have hfresh : Steady (⟨.fresh now, [], []⟩ : System σ ι).bridge := fun c hc => by cases hc
  exact Runs.invariant hkeep hfresh es

theorem system_logged (now : Nat) (es : List (SystemEvent σ ι)) : Logged (system staleMs now es).bridge := by
  have hkeep : ∀ (s : System σ ι) (e : SystemEvent σ ι), Logged s.bridge ∧ Replays s.bridge →
      Logged (s.step staleMs e).bridge ∧ Replays (s.step staleMs e).bridge := by
    intro s e hs
    cases e with
    | bridge e => exact ⟨hs.1.step hs.2 staleMs e, step_replays staleMs hs.2 e⟩
    | evict x => exact hs
  have hfresh : Logged (⟨.fresh now, [], []⟩ : System σ ι).bridge ∧
      Replays (⟨.fresh now, [], []⟩ : System σ ι).bridge :=
    ⟨fun m hm => rfl, fun msg hmsg => by cases hmsg⟩
  exact (Runs.invariant hkeep hfresh es).1

/-- **In every run the calls do what they owe**: the requests that are sent, re-inits apart, are theirs, none is left
without an answer, none is answered twice; and in a regular one no more sessions are replaced than are evicted or
given up. -/
theorem healing (now : Nat) (es : List (SystemEvent σ ι)) :
    (∀ c ∈ (system staleMs now es).bridge.calls, c.Sound (system staleMs now es).bridge) ∧
    Logged (system staleMs now es).bridge ∧
    (¬ Awaits (system staleMs now es).bridge →
      ∀ c ∈ (system staleMs now es).bridge.calls, ∃ out, c.phase = .done out) ∧
    (∀ (k : Nat) (c : Call σ ι) (out : List (Option (Message ι))),
      (system staleMs now es).bridge.calls[k]? = some c → c.phase = .done out →
        ∀ es', (system staleMs now (es ++ es')).bridge.calls[k]? = some c) ∧
    (Runs.Throughout (System.step staleMs) Regular ⟨.fresh now, [], []⟩ es →
      (system staleMs now es).bridge.healed.length ≤
        (system staleMs now es).evicted.length + (system staleMs now es).givenUp.length) := by
  have hsteady := system_steady staleMs now es
  refine ⟨fun c hc => (hsteady c hc).sound, system_logged staleMs now es, hsteady.done,
    fun k c out hc hdone es' => ?_, fun h => ?_⟩
  · have hkeep : ∀ (s : System σ ι) (e : SystemEvent σ ι), s.bridge.calls[k]? = some c →
        (s.step staleMs e).bridge.calls[k]? = some c := by
      intro s e hs
      cases e with
      | bridge e => exact done_kept hs hdone staleMs e
      | evict x => exact hs
    unfold system at hc ⊢
    rw [List.foldl_append]
    exact Runs.invariant hkeep hc es'
  · have hle := (system_counts staleMs h).length_le
    unfold System.gone at hle
    rwa [List.length_append, List.length_map] at hle

end Systems

/-! ## Runs -/

/-- A step of the bridge. -/
def bridgeEvents (es : List (Event Nat Nat)) : List (SystemEvent Nat Nat) := es.map .bridge

/-- The session is evicted, two requests find it gone, and one re-init serves both. -/
def evictedRun : List (SystemEvent Nat Nat) :=
  bridgeEvents firstSession ++ .evict 7 :: bridgeEvents [.handle (request 1) 2, .handle (request 2) 2,
    .reply 1 notFound 3, .reply 2 notFound 3, .reinitReply (opened 8) 4]

theorem healing_evictedRun : (system 9000 0 evictedRun).bridge.healed = [some 7] ∧
    (system 9000 0 evictedRun).bridge.healed.length ≤
      (system 9000 0 evictedRun).evicted.length + (system 9000 0 evictedRun).givenUp.length :=
  ⟨by decide, (healing 9000 0 evictedRun).2.2.2.2 (by decide)⟩

/-- A request times out in a session that the server still has. -/
def timedOutRun : List (SystemEvent Nat Nat) :=
  bridgeEvents (firstSession ++ [.handle (request 1) 2, .reply 1 ⟨none, .timedOut⟩ 3, .reinitReply (opened 8) 4])

/-- A re-init fails, and the next request finds the session gone again. -/
def failedRun : List (SystemEvent Nat Nat) :=
  bridgeEvents firstSession ++ .evict 7 :: bridgeEvents [.handle (request 1) 2, .reply 1 notFound 3,
    .reinitReply ⟨none, .failed⟩ 4, .handle (request 2) 5, .reply 2 notFound 6, .reinitReply ⟨none, .failed⟩ 7]

/-- The re-inits of a run. -/
def reinits (b : Bridge Nat Nat) : Nat := b.dispatched.countP (fun d => d.msg.isInit) - 1

/-- The server answers with an id that is not the request's. -/
def otherId : List (Option (Message Nat)) := [some ⟨.value 5, none, none⟩]

/-- A re-init without an eviction, two for one eviction, the client's `initialize` sent a third time by them, and an
answer that does not have the request's id. -/
theorem more_than_evictions :
    ((system 9000 0 timedOutRun).evicted = [] ∧ (system 9000 0 timedOutRun).bridge.healed = [some 7]) ∧
    ((system 9000 0 failedRun).evicted = [7] ∧ reinits (system 9000 0 failedRun).bridge = 2) ∧
    ((system 9000 0 failedRun).bridge.dispatched.filter fun d => decide (d.msg = initRequest)).length = 3 ∧
    ∃ m, answer (request 1) otherId = some m ∧ m.id ≠ (request 1).id := by
  refine ⟨by decide, by decide, by decide, ⟨.value 5, none, none⟩, by decide, by decide⟩

end Unimatrix.McpBridge
