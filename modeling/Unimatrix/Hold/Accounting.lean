import Unimatrix.Hold.Store

/-!
# What becomes of a held buffer

A held buffer that is not empty is **accounted for** by a sequence of calls (`Accounted`) when it is
still held under its session at the end and nothing was reported about it, or at some call it was
handed back by `readopt` for the same session under the cycle it was held for (`HandedBack`), or
reported in exactly one purge with its length and left empty (`Reported`).

* `Purging`: what a batch of removals does to the store. `removePurge`, `removePurgeAll` and
  `enforceCapLoop` are such batches.
* `step_accounts`: a call does one of the three to every held buffer, unless it is a `hold_on_drain`
  that puts another buffer under a session whose held buffer is not empty (`Overwrites`): the
  `insert` of `hold_on_drain_inner` drops the old handle.
* `run_accounts`: so every run without such a call accounts for every held buffer, and
  `overwritten_unaccounted` is a run with one.
-/

namespace Unimatrix.TranscriptHold

open HashMap

/-- The purges about one buffer. -/
def about (a : ArcId) (ps : List Purge) : List Purge := ps.filter fun p => p.arc = a

theorem about_append (a : ArcId) (ps qs : List Purge) :
    about a (ps ++ qs) = about a ps ++ about a qs := List.filter_append _ _

theorem report_of_empty {b : LiveBuffer} (h : b.len = 0) (trigger : PurgeTrigger)
    (sessionId : String) (a : ArcId) : report trigger sessionId a b = [] := by
  unfold report purgeRecord
  rw [if_pos h]
  rfl

theorem report_of_pos {b : LiveBuffer} (h : 0 < b.len) (trigger : PurgeTrigger)
    (sessionId : String) (a : ArcId) : report trigger sessionId a b =
      [⟨a, trigger, ⟨sessionKey "default" "" sessionId, b.len⟩⟩] := by
  unfold report purgeRecord
  rw [if_neg (Nat.ne_of_gt h)]
  rfl

theorem about_report (trigger : PurgeTrigger) (sessionId : String) (a a' : ArcId)
    (b : LiveBuffer) : about a (report trigger sessionId a' b) =
      if a' = a then report trigger sessionId a' b else [] := by
  rcases Nat.eq_zero_or_pos b.len with h | h
  · rw [report_of_empty h, ite_self]
    rfl
  · rw [report_of_pos h]
    unfold about
    rw [List.filter_singleton]
    by_cases ha : a' = a <;> simp [ha]

/-! ## Batches of removals -/

/-- The batch leaves buffer `a` alone. -/
def Untouched (t t' : TranscriptHold) (ps : List Purge) (a : ArcId) : Prop :=
  t'.buffers a = t.buffers a ∧ about a ps = []

/-- The batch empties buffer `a`, which some session held, and reports once what was in it. -/
structure Cleared (trigger : PurgeTrigger) (t t' : TranscriptHold) (ps : List Purge)
    (a : ArcId) : Prop where
  empty : (t'.buffers a).len = 0
  once : ∃ k h, t.held.lookup k = some h ∧ h.arc = a ∧ about a ps = report trigger k a (t.buffers a)

/-- What a batch of removals under one trigger does. -/
structure Purging (trigger : PurgeTrigger) (t t' : TranscriptHold) (ps : List Purge) :
    Prop where
  sub : ∀ {k h}, t'.held.lookup k = some h → t.held.lookup k = some h
  arc : ∀ a, Untouched t t' ps a ∨ Cleared trigger t t' ps a
  gone : ∀ {k h}, t.held.lookup k = some h → t'.held.lookup k = none →
    Cleared trigger t t' ps h.arc

theorem Purging.refl (trigger : PurgeTrigger) (t : TranscriptHold) : Purging trigger t t [] where
  sub := id
  arc := fun _ => Or.inl ⟨rfl, rfl⟩
  gone := fun h hn => absurd (h.symm.trans hn) (by simp)

section Trans

variable {trigger : PurgeTrigger} {t t1 t2 : TranscriptHold} {ps qs : List Purge} {a : ArcId}

theorem Untouched.trans (h : Untouched t t1 ps a) (h' : Untouched t1 t2 qs a) :
    Untouched t t2 (ps ++ qs) a := by
  refine ⟨h'.1.trans h.1, ?_⟩
  rw [about_append, h.2, h'.2, List.append_nil]

theorem Cleared.after_untouched (h : Untouched t t1 ps a) (h' : Cleared trigger t1 t2 qs a)
    (hsub : ∀ {k g}, t1.held.lookup k = some g → t.held.lookup k = some g) :
    Cleared trigger t t2 (ps ++ qs) a := by
  obtain ⟨k, g, hg, ha, hr⟩ := h'.once
  refine ⟨h'.empty, k, g, hsub hg, ha, ?_⟩
  rw [about_append, h.2, hr, h.1, List.nil_append]

/-- Once cleared, nothing more is reported. -/
theorem Cleared.before (h : Cleared trigger t t1 ps a)
    (h' : Untouched t1 t2 qs a ∨ Cleared trigger t1 t2 qs a) :
    Cleared trigger t t2 (ps ++ qs) a := by
  obtain ⟨k, g, hg, ha, hr⟩ := h.once
  rcases h' with hu | hc
  · refine ⟨by rw [hu.1]; exact h.empty, k, g, hg, ha, ?_⟩
    rw [about_append, hr, hu.2, List.append_nil]
  · obtain ⟨k', g', -, -, hr'⟩ := hc.once
    refine ⟨hc.empty, k, g, hg, ha, ?_⟩
    rw [about_append, hr, hr', report_of_empty h.empty, List.append_nil]

/-- Two batches are a batch. -/
theorem Purging.trans (h : Purging trigger t t1 ps) (h' : Purging trigger t1 t2 qs) :
    Purging trigger t t2 (ps ++ qs) where
  sub := fun hk => h.sub (h'.sub hk)
  arc := fun a => by
    rcases h.arc a with hu | hc
    · rcases h'.arc a with hu' | hc'
      · exact Or.inl (hu.trans hu')
      · exact Or.inr (hc'.after_untouched hu h.sub)
    · exact Or.inr (hc.before (h'.arc a))
  gone := fun {k g} hk hn => by
    cases h1 : t1.held.lookup k with
    | none => exact (h.gone hk h1).before (h'.arc g.arc)
    | some g1 =>
      obtain rfl : g1 = g := Option.some.inj ((h.sub h1).symm.trans hk)
      have hc' := h'.gone h1 hn
      rcases h.arc g1.arc with hu | hc
      · exact hc'.after_untouched hu h.sub
      · exact hc.before (Or.inr hc')

end Trans

theorem removePurge_purging (t : TranscriptHold) (trigger : PurgeTrigger) (sessionId : String) :
    Purging trigger t (t.removePurge trigger sessionId).1
      (t.removePurge trigger sessionId).2 := by
  unfold removePurge
  cases hk : t.held.lookup sessionId with
  | none => exact Purging.refl trigger t
  | some h =>
    have hclear : Cleared trigger t
        { t with
          held := t.held.erase sessionId
          buffers := Function.update t.buffers h.arc (t.buffers h.arc).clear }
        (report trigger sessionId h.arc (t.buffers h.arc)) h.arc := by
      refine ⟨?_, sessionId, h, hk, rfl, ?_⟩
      · show (Function.update t.buffers h.arc _ h.arc).len = 0
        rw [Function.update_self]
        exact LiveBuffer.len_clear _
      · rw [about_report, if_pos rfl]
    refine ⟨fun {k g} hg => ?_, fun a => ?_, fun {k g} hg hn => ?_⟩
    · have hg' : (t.held.erase sessionId).lookup k = some g := hg
      rw [lookup_erase_eq] at hg'
      split at hg'
      · exact absurd hg' (by simp)
      · exact hg'
    · by_cases ha : h.arc = a
      · exact Or.inr (ha ▸ hclear)
      · refine Or.inl ⟨Function.update_of_ne (Ne.symm ha) _ _, ?_⟩
        rw [about_report, if_neg ha]
    · have hn' : (t.held.erase sessionId).lookup k = none := hn
      rw [lookup_erase_eq] at hn'
      split at hn'
      · rename_i heq
        rw [heq] at hg
        obtain rfl := Option.some.inj (hk.symm.trans hg)
        exact hclear
      · exact absurd (hg.symm.trans hn') (by simp)

theorem removePurgeAll_purging (trigger : PurgeTrigger) (sids : List String)
    (t : TranscriptHold) :
    Purging trigger t (t.removePurgeAll trigger sids).1 (t.removePurgeAll trigger sids).2 := by
  induction sids generalizing t with
  | nil => exact Purging.refl trigger t
  | cons sid sids ih => exact (t.removePurge_purging trigger sid).trans (ih _)

theorem enforceCapLoop_purging (order : IterOrder String HeldBuffer) (rounds : Nat)
    (t : TranscriptHold) :
    Purging .capEvict t (enforceCapLoop order rounds t).1 (enforceCapLoop order rounds t).2 := by
  induction rounds generalizing t with
  | zero => exact Purging.refl .capEvict t
  | succ rounds ih =>
    unfold enforceCapLoop
    split
    · split
      · exact Purging.refl .capEvict t
      · exact (t.removePurge_purging .capEvict _).trans (ih _)
    · exact Purging.refl .capEvict t

/-- Every batch keeps a non-empty held buffer as it is, or clears and reports it. -/
theorem Purging.accounts {trigger : PurgeTrigger} {t t' : TranscriptHold} {ps : List Purge}
    (hp : Purging trigger t t' ps) {sid : String} {h : HeldBuffer}
    (hk : t.held.lookup sid = some h) :
    (t'.held.lookup sid = some h ∧ Untouched t t' ps h.arc) ∨ Cleared trigger t t' ps h.arc := by
  cases hk' : t'.held.lookup sid with
  | none => exact Or.inr (hp.gone hk hk')
  | some h' =>
    obtain rfl : h' = h := Option.some.inj ((hp.sub hk').symm.trans hk)
    rcases hp.arc h'.arc with hu | hc
    · exact Or.inl ⟨rfl, hu⟩
    · exact Or.inr hc

/-! ## One call -/

/-- Over these calls `sid` keeps holding buffer `a`, which is not empty at the end, and nothing is
reported about it. -/
structure Kept (t : TranscriptHold) (es : List HoldEvent) (sid : String) (a : ArcId) : Prop where
  held : ∃ h, (t.run es).held.lookup sid = some h ∧ h.arc = a
  pos : 0 < ((t.run es).buffers a).len
  silent : about a (t.purges es) = []

/-- The call hands buffer `a` back to `sid`, under the non-empty cycle it was held for. -/
def HandedBack (t : TranscriptHold) (e : HoldEvent) (sid : String) (a : ArcId) : Prop :=
  ∃ h, t.held.lookup sid = some h ∧ h.arc = a ∧ e.call = .readopt sid h.featureCycle ∧
    h.featureCycle ≠ "" ∧ (t.step e).2.returned = some a ∧ about a (t.step e).2.purges = []

/-- The trigger of the purges a call emits. -/
def purgeTrigger : HoldCall → Option PurgeTrigger
  | .holdOnDrain .. => some .capEvict
  | .readopt .. => some .readoptMismatch
  | .sweepExpired _ => some .staleSweep
  | .heldArcForSession _ => none
  | .applyDelta .. => none

/-- The call emits one purge about buffer `a`, with its length, under a session that holds it or for
which the call holds it, and leaves it empty. -/
def Reported (t : TranscriptHold) (e : HoldEvent) (a : ArcId) : Prop :=
  ((t.step e).1.buffers a).len = 0 ∧ ∃ k trigger, purgeTrigger e.call = some trigger ∧
    about a (t.step e).2.purges =
      [⟨a, trigger, ⟨sessionKey "default" "" k, (t.buffers a).len⟩⟩] ∧
    ((∃ h, t.held.lookup k = some h ∧ h.arc = a) ∨ ∃ c, e.call = .holdOnDrain k a c)

/-- The call puts another buffer under a session whose held buffer is not empty. -/
def Overwrites (t : TranscriptHold) (e : HoldEvent) : Prop :=
  match e.call with
  | .holdOnDrain sessionId arc featureCycle => ¬ featureCycle.isEmpty ∧
      ∃ h ∈ t.held.lookup sessionId, h.arc ≠ arc ∧ 0 < (t.buffers h.arc).len
  | _ => False

section Step

variable {t : TranscriptHold} {e : HoldEvent} {sid : String} {h : HeldBuffer}

/-- What one call does to a held buffer `a`. -/
def StepAccounts (t : TranscriptHold) (e : HoldEvent) (sid : String) (a : ArcId) : Prop :=
  Kept t [e] sid a ∨ HandedBack t e sid a ∨ Reported t e a

theorem kept_singleton (a : ArcId) (hheld : ∃ g, (t.step e).1.held.lookup sid = some g ∧ g.arc = a)
    (hpos : 0 < ((t.step e).1.buffers a).len) (hs : about a (t.step e).2.purges = []) :
    Kept t [e] sid a :=
  ⟨hheld, hpos, by
    show about a ((t.step e).2.purges ++ []) = []
    rw [List.append_nil, hs]⟩

/-- A call that is a batch of removals, perhaps after `hold_on_drain` put an entry in. -/
theorem stepAccounts_of_purging {trigger : PurgeTrigger} {u : TranscriptHold}
    (htrig : purgeTrigger e.call = some trigger)
    (hp : Purging trigger u (t.step e).1 (t.step e).2.purges)
    (hbuf : u.buffers = t.buffers)
    (howner : ∀ k g, u.held.lookup k = some g →
      t.held.lookup k = some g ∨ ∃ c, e.call = .holdOnDrain k g.arc c)
    (hk : u.held.lookup sid = some h) (hpos : 0 < (t.buffers h.arc).len) :
    StepAccounts t e sid h.arc := by
  rcases hp.accounts hk with ⟨hk', hu⟩ | hc
  · refine Or.inl (kept_singleton h.arc ⟨h, hk', rfl⟩ ?_ hu.2)
    rw [hu.1, hbuf]
    exact hpos
  · obtain ⟨k, g, hg, ha, hr⟩ := hc.once
    rw [hbuf, report_of_pos hpos] at hr
    refine Or.inr (Or.inr ⟨hc.empty, k, trigger, htrig, hr, ?_⟩)
    rcases howner k g hg with hold | ⟨c, hcall⟩
    · exact Or.inl ⟨g, hold, ha⟩
    · exact Or.inr ⟨c, ha ▸ hcall⟩

theorem holdOnDrain_accounts {s : String} {arc : ArcId} {cycle : String} {now : Nat}
    {order : IterOrder String HeldBuffer}
    (hover : ¬ Overwrites t ⟨.holdOnDrain s arc cycle, now, order⟩)
    (hk : t.held.lookup sid = some h) (hpos : 0 < (t.buffers h.arc).len) :
    StepAccounts t ⟨.holdOnDrain s arc cycle, now, order⟩ sid h.arc := by
  by_cases hc : cycle.isEmpty
  · have hstep : t.step ⟨.holdOnDrain s arc cycle, now, order⟩ = (t, ⟨none, []⟩) := by
      show ((t.holdOnDrain now order s arc cycle).1, _) = _
      unfold holdOnDrain
      rw [if_pos hc]
    refine Or.inl (kept_singleton h.arc ⟨h, ?_, rfl⟩ ?_ ?_) <;> rw [hstep]
    · exact hk
    · exact hpos
    · rfl
  · -- the entry goes in, then the cap is enforced
    have hold : t.holdOnDrain now order s arc cycle =
        enforceCap { t with held := t.held.insert s ⟨arc, cycle, now⟩ } order := if_neg hc
    have hstep : t.step ⟨.holdOnDrain s arc cycle, now, order⟩ =
        ((t.holdOnDrain now order s arc cycle).1,
          ⟨none, (t.holdOnDrain now order s arc cycle).2⟩) := rfl
    rw [hold] at hstep
    have hp : Purging .capEvict { t with held := t.held.insert s ⟨arc, cycle, now⟩ }
        (t.step ⟨.holdOnDrain s arc cycle, now, order⟩).1
        (t.step ⟨.holdOnDrain s arc cycle, now, order⟩).2.purges := by
      rw [hstep]
      exact enforceCapLoop_purging order _ _
    have howner : ∀ k g, (t.held.insert s ⟨arc, cycle, now⟩).lookup k = some g →
        t.held.lookup k = some g ∨
          ∃ c, HoldCall.holdOnDrain s arc cycle = .holdOnDrain k g.arc c := by
      intro k g hg
      rw [lookup_insert_eq] at hg
      split at hg
      · rename_i heq
        obtain rfl := Option.some.inj hg
        exact Or.inr ⟨cycle, by rw [heq]⟩
      · exact Or.inl hg
    by_cases hs : sid = s
    · -- the buffer that was held is the one put in
      have harc : arc = h.arc := by
        by_contra hne
        exact hover ⟨hc, h, hs ▸ hk, fun heq => hne heq.symm, hpos⟩
      exact stepAccounts_of_purging (h := ⟨h.arc, cycle, now⟩) rfl hp rfl howner
        (by rw [← harc, lookup_insert_eq, if_pos hs]) hpos
    · exact stepAccounts_of_purging rfl hp rfl howner
        (by rw [lookup_insert_eq, if_neg hs]; exact hk) hpos

theorem readopt_accounts {s cycle : String} {now : Nat} {order : IterOrder String HeldBuffer}
    (hk : t.held.lookup sid = some h) (hpos : 0 < (t.buffers h.arc).len) :
    StepAccounts t ⟨.readopt s cycle, now, order⟩ sid h.arc := by
  have hstep : t.step ⟨.readopt s cycle, now, order⟩ =
      ((t.readopt s cycle).1, ⟨(t.readopt s cycle).2.1, (t.readopt s cycle).2.2⟩) := rfl
  cases hs : t.held.lookup s with
  | none =>
    have hread : t.readopt s cycle = (t, none, []) := by
      unfold readopt
      rw [hs]
    rw [hread] at hstep
    refine Or.inl (kept_singleton h.arc ⟨h, ?_, rfl⟩ ?_ ?_) <;> rw [hstep]
    · exact hk
    · exact hpos
    · rfl
  | some g =>
    by_cases hm : cycleMatches g cycle
    · have hread : t.readopt s cycle = ({ t with held := t.held.erase s }, some g.arc, []) := by
        unfold readopt
        rw [hs]
        exact if_pos hm
      rw [hread] at hstep
      by_cases heq : sid = s
      · rw [← heq, hk] at hs
        obtain rfl := Option.some.inj hs
        unfold cycleMatches at hm
        simp only [Bool.and_eq_true, Bool.not_eq_true', beq_iff_eq] at hm
        obtain ⟨hne, hcycle⟩ := hm
        refine Or.inr (Or.inl ⟨h, hk, rfl, ?_, ?_, ?_, ?_⟩)
        · rw [heq, hcycle]
        · rintro hnil
          rw [← hcycle, hnil] at hne
          exact absurd hne (by decide)
        · rw [hstep]
        · rw [hstep]
          rfl
      · refine Or.inl (kept_singleton h.arc ⟨h, ?_, rfl⟩ ?_ ?_) <;> rw [hstep]
        · show (t.held.erase s).lookup sid = some h
          rw [lookup_erase_eq, if_neg heq]
          exact hk
        · exact hpos
        · rfl
    · have hread : t.readopt s cycle = ((t.removePurge .readoptMismatch s).1, none,
          (t.removePurge .readoptMismatch s).2) := by
        unfold readopt
        rw [hs]
        exact if_neg hm
      rw [hread] at hstep
      refine stepAccounts_of_purging (u := t) rfl ?_ rfl (fun _ _ hg => Or.inl hg) hk hpos
      rw [hstep]
      exact t.removePurge_purging .readoptMismatch s

theorem heldArcForSession_accounts {s : String} {now : Nat} {order : IterOrder String HeldBuffer}
    (hk : t.held.lookup sid = some h) (hpos : 0 < (t.buffers h.arc).len) :
    StepAccounts t ⟨.heldArcForSession s, now, order⟩ sid h.arc := by
  have hstep : t.step ⟨.heldArcForSession s, now, order⟩ =
      ((t.heldArcForSession now s).1, ⟨(t.heldArcForSession now s).2, []⟩) := rfl
  unfold heldArcForSession at hstep
  cases hs : t.held.lookup s with
  | none =>
    rw [hs] at hstep
    refine Or.inl (kept_singleton h.arc ⟨h, ?_, rfl⟩ ?_ ?_) <;> rw [hstep]
    · exact hk
    · exact hpos
    · rfl
  | some g =>
    rw [hs] at hstep
    refine Or.inl (kept_singleton h.arc ?_ ?_ ?_) <;> rw [hstep]
    · by_cases heq : sid = s
      · rw [← heq, hk] at hs
        obtain rfl := Option.some.inj hs
        exact ⟨{ h with lastActivityAt := now }, by rw [lookup_insert_eq, if_pos heq], rfl⟩
      · exact ⟨h, by rw [lookup_insert_eq, if_neg heq]; exact hk, rfl⟩
    · exact hpos
    · rfl

theorem applyDelta_accounts {arc : ArcId} {offset : Nat} {bytes : List UInt8} {now : Nat}
    {order : IterOrder String HeldBuffer} (hk : t.held.lookup sid = some h)
    (hpos : 0 < (t.buffers h.arc).len) :
    StepAccounts t ⟨.applyDelta arc offset bytes, now, order⟩ sid h.arc := by
  refine Or.inl (kept_singleton h.arc ⟨h, hk, rfl⟩ ?_ rfl)
  show 0 < (Function.update t.buffers arc ((t.buffers arc).applyDelta offset bytes) h.arc).len
  by_cases ha : h.arc = arc
  · rw [ha, Function.update_self]
    exact LiveBuffer.len_applyDelta_pos (ha ▸ hpos) offset bytes
  · rw [Function.update_of_ne ha]
    exact hpos

/-- **One call accounts for every held buffer** unless it overwrites one. -/
theorem step_accounts (hover : ¬ Overwrites t e) (hk : t.held.lookup sid = some h)
    (hpos : 0 < (t.buffers h.arc).len) : StepAccounts t e sid h.arc := by
  obtain ⟨call, now, order⟩ := e
  cases call with
  | holdOnDrain s arc cycle => exact holdOnDrain_accounts hover hk hpos
  | readopt s cycle => exact readopt_accounts hk hpos
  | heldArcForSession s => exact heldArcForSession_accounts hk hpos
  | applyDelta arc offset bytes => exact applyDelta_accounts hk hpos
  | sweepExpired ttl =>
    exact stepAccounts_of_purging rfl (removePurgeAll_purging .staleSweep _ t) rfl
      (fun _ _ hg => Or.inl hg) hk hpos

end Step

/-! ## Runs -/

/-- No call of the run overwrites. -/
def NeverOverwrites (t : TranscriptHold) : List HoldEvent → Prop
  | [] => True
  | e :: es => ¬ Overwrites t e ∧ NeverOverwrites (t.step e).1 es

theorem neverOverwrites_append {t : TranscriptHold} {es fs : List HoldEvent} :
    NeverOverwrites t (es ++ fs) ↔ NeverOverwrites t es ∧ NeverOverwrites (t.run es) fs := by
  induction es generalizing t with
  | nil => exact ⟨fun h => ⟨trivial, h⟩, fun h => h.2⟩
  | cons e es ih =>
    show (_ ∧ NeverOverwrites (t.step e).1 (es ++ fs)) ↔ _
    rw [ih]
    exact and_assoc.symm

/-- The calls `es` account for buffer `a`, held by `sid`. -/
def Accounted (t : TranscriptHold) (es : List HoldEvent) (sid : String) (a : ArcId) : Prop :=
  Kept t es sid a ∨ ∃ pre e post, es = pre ++ e :: post ∧ Kept t pre sid a ∧
    (HandedBack (t.run pre) e sid a ∨ Reported (t.run pre) e a)

/-- A buffer that is kept by the first call is accounted for by the calls if the rest of them do. -/
theorem Accounted.cons {t : TranscriptHold} {e : HoldEvent} {es : List HoldEvent} {sid : String}
    {a : ArcId} (hkept : Kept t [e] sid a) (h : Accounted (t.step e).1 es sid a) :
    Accounted t (e :: es) sid a := by
  have hsilent : about a (t.step e).2.purges = [] := by
    have hs := hkept.silent
    unfold purges at hs
    rw [about_append, List.append_eq_nil_iff] at hs
    exact hs.1
  have hcons : ∀ fs, Kept (t.step e).1 fs sid a → Kept t (e :: fs) sid a := fun fs hf =>
    ⟨hf.held, hf.pos, by
      unfold purges
      rw [about_append, hsilent, hf.silent]
      rfl⟩
  rcases h with hk | ⟨pre, e', post, rfl, hk, hout⟩
  · exact Or.inl (hcons es hk)
  · exact Or.inr ⟨e :: pre, e', post, rfl, hcons pre hk, hout⟩

/-- **A run of calls accounts for a held buffer.** -/
theorem accounted_of_neverOverwrites {t : TranscriptHold} {es : List HoldEvent} {sid : String}
    {h : HeldBuffer} (hsafe : NeverOverwrites t es) (hk : t.held.lookup sid = some h)
    (hpos : 0 < (t.buffers h.arc).len) : Accounted t es sid h.arc := by
  induction es generalizing t h with
  | nil => exact Or.inl ⟨⟨h, hk, rfl⟩, hpos, rfl⟩
  | cons e es ih =>
    rcases step_accounts hsafe.1 hk hpos with hkept | hout
    · obtain ⟨g, hg, harc⟩ := hkept.held
      rw [← harc] at hkept ⊢
      exact Accounted.cons hkept (ih hsafe.2 hg hkept.pos)
    · refine Or.inr ⟨[], e, es, rfl, ⟨⟨h, hk, rfl⟩, hpos, rfl⟩, hout⟩

/-- **No held buffer leaves silently while nothing is overwritten.** In a run from an empty store, a
buffer held with content at any point is, over the rest of the run, still held, handed back under its
cycle, or reported in exactly one purge with its length, if no `hold_on_drain` of the run puts
another buffer under a session whose held buffer is not empty. -/
theorem run_accounts (maxSessions : Nat) (buffers : ArcId → LiveBuffer)
    (pre post : List HoldEvent) (sid : String) (h : HeldBuffer)
    (hsafe : NeverOverwrites (new maxSessions buffers) (pre ++ post))
    (hk : ((new maxSessions buffers).run pre).held.lookup sid = some h)
    (hpos : 0 < (((new maxSessions buffers).run pre).buffers h.arc).len) :
    Accounted ((new maxSessions buffers).run pre) post sid h.arc :=
  accounted_of_neverOverwrites (neverOverwrites_append.mp hsafe).2 hk hpos

/-- Every buffer as `TranscriptBuffer::new` makes it. -/
def freshBuffers : ArcId → LiveBuffer := fun _ => LiveBuffer.new 16 .empty

/-- A call at time `now`, with the map iterated as stored. -/
def callAt (now : Nat) (call : HoldCall) : HoldEvent := ⟨call, now, .stored⟩

/-- The theorem above at a store of one slot: holding a second session evicts the first. -/
theorem run_accounts_evicted :
    Accounted ((new 1 freshBuffers).run
        [callAt 0 (.applyDelta 0 0 [97]), callAt 1 (.holdOnDrain "s" 0 "c")])
      [callAt 2 (.holdOnDrain "r" 1 "c"), callAt 3 (.readopt "r" "c")] "s" 0 := by
  refine run_accounts 1 freshBuffers _ _ "s" ⟨0, "c", 1⟩ ?_ rfl (by decide)
  refine ⟨id, ?_, ?_, id, trivial⟩
  · rintro ⟨-, h, hl, -⟩
    exact absurd (show none = some h from hl) (by simp)
  · rintro ⟨-, h, hl, -⟩
    exact absurd (show none = some h from hl) (by simp)

/-! ## The call that overwrites -/

/-- **An overwriting call loses the buffer it overwrites**: when no other session holds it, the
buffer is no longer held, was not handed back and nothing was reported about it. -/
theorem overwrites_unaccounted {t : TranscriptHold} {e : HoldEvent} {sid : String} {arc : ArcId}
    {cycle : String} {h : HeldBuffer} (hcall : e.call = .holdOnDrain sid arc cycle)
    (hover : Overwrites t e) (hk : t.held.lookup sid = some h)
    (honly : ∀ k g, t.held.lookup k = some g → g.arc = h.arc → k = sid) :
    ¬ Accounted t [e] sid h.arc := by
  obtain ⟨call, now, order⟩ := e
  obtain rfl : call = .holdOnDrain sid arc cycle := hcall
  obtain ⟨hc, g, hg, hne, hpos⟩ := hover
  obtain rfl : h = g := Option.some.inj (hk.symm.trans hg)
  have hstep : t.step ⟨.holdOnDrain sid arc cycle, now, order⟩ =
      ((t.holdOnDrain now order sid arc cycle).1,
        ⟨none, (t.holdOnDrain now order sid arc cycle).2⟩) := rfl
  have hold : t.holdOnDrain now order sid arc cycle =
      enforceCap { t with held := t.held.insert sid ⟨arc, cycle, now⟩ } order := if_neg hc
  have hp := enforceCapLoop_purging order
    (len (t.held.insert sid ⟨arc, cycle, now⟩))
    { t with held := t.held.insert sid ⟨arc, cycle, now⟩ }
  have hin : (t.held.insert sid ⟨arc, cycle, now⟩).lookup sid = some ⟨arc, cycle, now⟩ :=
    AList.lookup_insert _
  have hsilent : about h.arc (t.holdOnDrain now order sid arc cycle).2 = [] := by
    rw [hold]
    rcases hp.arc h.arc with hu | hcl
    · exact hu.2
    · -- a purge about it would come from another session that holds it
      obtain ⟨k, g, hg, ha, -⟩ := hcl.once
      rw [lookup_insert_eq] at hg
      split at hg
      · obtain rfl := Option.some.inj hg
        exact absurd ha.symm hne
      · rename_i hks
        exact absurd (honly k g hg ha) hks
  rintro (hkept | ⟨pre, e', post, hes, -, hout⟩)
  · obtain ⟨g, hg, ha⟩ := hkept.held
    have hg' : (t.holdOnDrain now order sid arc cycle).1.held.lookup sid = some g := hg
    rw [hold] at hg'
    obtain rfl := Option.some.inj ((hp.sub hg').symm.trans hin)
    exact hne ha.symm
  · cases pre with
    | cons x xs => exact absurd (congrArg List.length hes) (by simp)
    | nil =>
      obtain ⟨rfl, -⟩ := List.cons.inj hes
      rcases hout with ⟨g, hg', ha, hcall', -⟩ | ⟨-, k, trigger, -, habout, -⟩
      · exact absurd hcall' (by simp)
      · rw [run, hstep, hsilent] at habout
        exact absurd habout (by simp)

/-- A session is drained again while its first buffer is held with content: that buffer is gone. -/
theorem overwritten_unaccounted :
    ∃ h, ((new 8 freshBuffers).run
        [callAt 0 (.applyDelta 0 0 [97]), callAt 1 (.holdOnDrain "s" 0 "c")]).held.lookup "s" =
        some h ∧
      0 < (((new 8 freshBuffers).run
        [callAt 0 (.applyDelta 0 0 [97]), callAt 1 (.holdOnDrain "s" 0 "c")]).buffers h.arc).len ∧
      ¬ Accounted ((new 8 freshBuffers).run
        [callAt 0 (.applyDelta 0 0 [97]), callAt 1 (.holdOnDrain "s" 0 "c")])
        [callAt 2 (.holdOnDrain "s" 1 "c")] "s" h.arc := by
  refine ⟨⟨0, "c", 1⟩, rfl, by decide, ?_⟩
  refine overwrites_unaccounted rfl ?_ rfl ?_
  · exact ⟨by decide, ⟨0, "c", 1⟩, rfl, by decide, by decide⟩
  · intro k g hg _
    have hg' : ((∅ : HashMap String HeldBuffer).insert "s" ⟨0, "c", 1⟩).lookup k = some g := hg
    rw [lookup_insert_eq] at hg'
    split at hg'
    · assumption
    · exact absurd hg' (by simp)

end Unimatrix.TranscriptHold
