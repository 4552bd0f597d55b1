import Mathlib.Control.Basic
import Mathlib.Logic.Relation

/-!
# Database transactions

A transaction is a program over a working copy of the database that may fail. Each statement it sends
may also fail for a reason of its own (the disk, the pool, a lock): `Conn.fault` says which statement
does, and with what error. A transaction that fails leaves the database as it was (`transaction`).

`Run x s a s'` says that `x`, given `s`, can return `a` and leave `s'`. The rules take a successful
program apart one statement at a time:

* `Run.bind`, `Run.statement`, `Run.query`, `Run.update`, `Run.reject`, `Run.okOr`,
  `Run.ret`;
* `Run.forM`: a loop whose body stays within a preorder stays within it.

Headlines: **`attempt_settled`** and **`transaction_settled`**, a failed call changes nothing and a
successful one is a run of its body (`Settled`).

`Passes x s a s'` says that `x` does return, where no failure is to come; its rules build a run
(`Passes.bind`, `Passes.forM`) and **`Passes.transaction`** commits it. `Refuses x s e` says that it
refuses instead, with `e`.
-/

/-- A connection: the working copy of the database, and the failure to come, if any. `(n, e)` means
that `n` more statements pass and the one after them fails with `e`. -/
structure Conn (σ ε : Type) where
  db : σ
  fault : Option (Nat × ε)

/-- A program inside a transaction. -/
abbrev Txn (σ ε : Type) : Type → Type := StateT (Conn σ ε) (Except ε)

namespace Txn

variable {σ ε α β : Type}

/-! ## Statements -/

/-- Send one statement: it fails when its failure is due. -/
def tick : Txn σ ε Unit := fun c =>
  match c.fault with
  | none => .ok ((), c)
  | some (0, e) => .error e
  | some (n + 1, e) => .ok ((), { c with fault := some (n, e) })

/-- A statement: it reads and changes the working copy, and may refuse to. -/
def statement (f : σ → Except ε (α × σ)) : Txn σ ε α := do
  tick
  fun c => (f c.db).map fun r => (r.1, { c with db := r.2 })

/-- A statement that only reads. -/
def query (f : σ → α) : Txn σ ε α := statement fun s => .ok (f s, s)

/-- A statement that only writes, with nothing to refuse. -/
def update (f : σ → σ) : Txn σ ε Unit := statement fun s => .ok ((), f s)

/-- Return an error unless `ok` holds. Nothing is sent to the database. -/
def reject (ok : Bool) (e : ε) : Txn σ ε Unit := if ok then pure () else throw e

/-- `Option::ok_or(e)?`. -/
def okOr (o : Option α) (e : ε) : Txn σ ε α :=
  match o with
  | some a => pure a
  | none => throw e

/-! ## Runs -/

/-- `x` can take the database from `s` to `s'`, returning `a`. -/
def Run (x : Txn σ ε α) (s : σ) (a : α) (s' : σ) : Prop :=
  ∃ f f', x ⟨s, f⟩ = .ok (a, ⟨s', f'⟩)

theorem run_of_eq {x : Txn σ ε α} {c c' : Conn σ ε} {a : α} (h : x c = .ok (a, c')) :
    Run x c.db a c'.db := ⟨c.fault, c'.fault, h⟩

theorem Run.bind {x : Txn σ ε α} {f : α → Txn σ ε β} {s s' : σ} {b : β}
    (h : Run (x >>= f) s b s') : ∃ a s₁, Run x s a s₁ ∧ Run (f a) s₁ b s' := by
  obtain ⟨g, g', h⟩ := h
  have hb : (x ⟨s, g⟩ >>= fun p => f p.1 p.2) = .ok (b, ⟨s', g'⟩) := h
  cases hx : x ⟨s, g⟩ with
  | error e =>
    rw [hx] at hb
    cases hb
  | ok p =>
    rw [hx] at hb
    exact ⟨p.1, p.2.db, run_of_eq hx, run_of_eq hb⟩

theorem Run.ret {s s' : σ} {a b : α} (h : Run (pure a : Txn σ ε α) s b s') :
    b = a ∧ s' = s := by
  obtain ⟨g, g', h⟩ := h
  have hb : (Except.ok (a, ⟨s, g⟩) : Except ε (α × Conn σ ε)) = .ok (b, ⟨s', g'⟩) := h
  cases hb
  exact ⟨rfl, rfl⟩

theorem Run.tick {s s' : σ} {a : Unit} (h : Run (tick : Txn σ ε Unit) s a s') : s' = s := by
  obtain ⟨g, g', h⟩ := h
  unfold Txn.tick at h
  cases g with
  | none =>
    cases h
    rfl
  | some p =>
    obtain ⟨n, e⟩ := p
    cases n with
    | zero => cases h
    | succ n =>
      cases h
      rfl

theorem Run.statement {f : σ → Except ε (α × σ)} {s s' : σ} {a : α}
    (h : Run (statement f) s a s') : f s = .ok (a, s') := by
  obtain ⟨_, s₁, ht, g, g', hf⟩ := h.bind
  have hm : (f s₁).map (fun r => (r.1, (⟨r.2, g⟩ : Conn σ ε))) = .ok (a, ⟨s', g'⟩) := hf
  rw [ht.tick] at hm
  cases hs : f s with
  | error e =>
    rw [hs] at hm
    cases hm
  | ok r =>
    rw [hs] at hm
    cases hm
    rfl

theorem Run.query {f : σ → α} {s s' : σ} {a : α} (h : Run (query f : Txn σ ε α) s a s') :
    a = f s ∧ s' = s := by
  have hs := Run.statement h
  cases hs
  exact ⟨rfl, rfl⟩

theorem Run.update {f : σ → σ} {s s' : σ} {a : Unit} (h : Run (update f : Txn σ ε Unit) s a s') :
    s' = f s := by
  have hs := Run.statement h
  cases hs
  rfl

theorem Run.reject {ok : Bool} {e : ε} {s s' : σ} {a : Unit}
    (h : Run (reject ok e : Txn σ ε Unit) s a s') : ok = true ∧ s' = s := by
  unfold Txn.reject at h
  split at h
  · rename_i hok
    exact ⟨hok, h.ret.2⟩
  · obtain ⟨g, g', h⟩ := h
    cases h

theorem Run.okOr {o : Option α} {e : ε} {s s' : σ} {a : α}
    (h : Run (okOr o e : Txn σ ε α) s a s') : o = some a ∧ s' = s := by
  cases o with
  | some b =>
    obtain ⟨rfl, hs⟩ := Run.ret h
    exact ⟨rfl, hs⟩
  | none =>
    obtain ⟨g, g', h⟩ := h
    cases h

/-- **A loop stays within any preorder its body stays within.** -/
theorem Run.forM {R : σ → σ → Prop} (refl : ∀ s, R s s) (trans : ∀ s t u, R s t → R t u → R s u)
    {f : α → Txn σ ε PUnit} :
    ∀ {l : List α}, (∀ a ∈ l, ∀ s b s', Run (f a) s b s' → R s s') →
      ∀ {s b s'}, Run (l.forM f) s b s' → R s s'
  | [], _, s, b, s', h => by
    have hp : Run (pure () : Txn σ ε PUnit) s b s' := h
    rw [hp.ret.2]
    exact refl s
  | a :: l, hf, s, b, s', h => by
    have hb : Run (f a >>= fun _ => l.forM f) s b s' := h
    obtain ⟨b₁, s₁, h₁, h⟩ := hb.bind
    exact trans s s₁ s' (hf a List.mem_cons_self s b₁ s₁ h₁)
      (Run.forM refl trans (fun x hx => hf x (List.mem_cons_of_mem a hx)) h)

/-- **A loop of statements is a fold that may refuse.** -/
theorem Run.forM_foldlM {f : α → Txn σ ε PUnit} {g : σ → α → Except ε σ}
    (h : ∀ a s b s', Run (f a) s b s' → g s a = .ok s') :
    ∀ {l : List α} {s b s'}, Run (l.forM f) s b s' → l.foldlM g s = .ok s'
  | [], s, b, s', hr => by
    have hp : Run (pure () : Txn σ ε PUnit) s b s' := hr
    rw [hp.ret.2]
    rfl
  | a :: l, s, b, s', hr => by
    have hb : Run (f a >>= fun _ => l.forM f) s b s' := hr
    obtain ⟨b₁, s₁, h₁, hr⟩ := hb.bind
    rw [List.foldlM_cons, h a s b₁ s₁ h₁]
    exact Run.forM_foldlM h hr

/-! ## Committing -/

/-- Run a program on its own: what it did is kept when it returns and dropped when it fails. -/
def attempt (x : Txn σ ε α) (c : Conn σ ε) : Except ε α × Conn σ ε :=
  match x c with
  | .ok (a, c') => (.ok a, c')
  | .error e => (.error e, ⟨c.db, none⟩)

/-- `BEGIN`, the body, `COMMIT`. -/
def transaction (body : Txn σ ε α) : Conn σ ε → Except ε α × Conn σ ε :=
  attempt do
    tick
    let a ← body
    tick
    pure a

/-- How a call ends: it fails and the database stands, or its body ran and is kept. -/
inductive Settled (body : Txn σ ε α) (c : Conn σ ε) : Except ε α × Conn σ ε → Prop where
  | failed (e : ε) : Settled body c (.error e, ⟨c.db, none⟩)
  | committed (a : α) (c' : Conn σ ε) : Run body c.db a c'.db → Settled body c (.ok a, c')

/-- **A program on its own settles.** -/
theorem attempt_settled (x : Txn σ ε α) (c : Conn σ ε) : Settled x c (attempt x c) := by
  unfold attempt
  cases hx : x c with
  | error e => exact Settled.failed e
  | ok r => exact Settled.committed r.1 r.2 (run_of_eq hx)

/-- **A transaction settles.** -/
theorem transaction_settled (body : Txn σ ε α) (c : Conn σ ε) :
    Settled body c (transaction body c) := by
  have hs := attempt_settled (do tick; let a ← body; tick; pure a) c
  unfold transaction
  generalize attempt (do tick; let a ← body; tick; pure a) c = r at hs ⊢
  cases hs with
  | failed e => exact Settled.failed e
  | committed a c' h =>
    obtain ⟨_, s₁, ht₁, h⟩ := h.bind
    obtain ⟨a₁, s₂, hb, h⟩ := h.bind
    obtain ⟨_, s₃, ht₂, h⟩ := h.bind
    obtain ⟨hret, hs₃⟩ := h.ret
    rw [ht₁.tick] at hb
    refine Settled.committed a c' ?_
    rw [hs₃, ht₂.tick, hret]
    exact hb

/-! ## Undisturbed runs -/

/-- Where no failure is to come, `x` takes the database from `s` to `s'` and returns `a`. -/
def Passes (x : Txn σ ε α) (s : σ) (a : α) (s' : σ) : Prop := x ⟨s, none⟩ = .ok (a, ⟨s', none⟩)

theorem Passes.bind {x : Txn σ ε α} {f : α → Txn σ ε β} {s s₁ s' : σ} {a : α} {b : β}
    (hx : Passes x s a s₁) (hf : Passes (f a) s₁ b s') : Passes (x >>= f) s b s' := by
  have h : (x ⟨s, none⟩ >>= fun p => f p.1 p.2) = .ok (b, ⟨s', none⟩) := by
    rw [show x ⟨s, none⟩ = _ from hx]
    exact hf
  exact h

theorem Passes.ret (s : σ) (a : α) : Passes (pure a : Txn σ ε α) s a s := rfl

theorem Passes.tick (s : σ) : Passes (tick : Txn σ ε Unit) s () s := rfl

theorem Passes.statement {f : σ → Except ε (α × σ)} {s s' : σ} {a : α} (h : f s = .ok (a, s')) :
    Passes (statement f) s a s' := by
  refine Passes.bind (Passes.tick s) ?_
  unfold Passes
  simp only [h]
  rfl

theorem Passes.query (f : σ → α) (s : σ) : Passes (query f : Txn σ ε α) s (f s) s :=
  Passes.statement rfl

theorem Passes.update (f : σ → σ) (s : σ) : Passes (update f : Txn σ ε Unit) s () (f s) :=
  Passes.statement rfl

theorem Passes.reject {ok : Bool} {e : ε} (s : σ) (h : ok = true) :
    Passes (reject ok e : Txn σ ε Unit) s () s := by
  unfold Txn.reject
  rw [if_pos h]
  exact Passes.ret s ()

theorem Passes.okOr {o : Option α} {e : ε} {a : α} (s : σ) (h : o = some a) :
    Passes (okOr o e : Txn σ ε α) s a s := by
  rw [h]
  exact Passes.ret s a

/-- **A loop whose body always passes is a fold.** -/
theorem Passes.forM {f : α → Txn σ ε PUnit} {g : σ → α → σ}
    (h : ∀ a s, Passes (f a) s PUnit.unit (g s a)) :
    ∀ (l : List α) (s : σ), Passes (l.forM f) s PUnit.unit (l.foldl g s)
  | [], s => Passes.ret s PUnit.unit
  | a :: l, s => Passes.bind (h a s) (Passes.forM h l (g s a))

/-- **A loop whose statements go through one after the other.** -/
theorem Passes.forM_foldlM {f : α → Txn σ ε PUnit} {g : σ → α → Except ε σ}
    (h : ∀ a s s', g s a = .ok s' → Passes (f a) s PUnit.unit s') :
    ∀ {l : List α} {s s' : σ}, l.foldlM g s = .ok s' → Passes (l.forM f) s PUnit.unit s'
  | [], s, s', hr => by
    cases hr
    exact Passes.ret s PUnit.unit
  | a :: l, s, s', hr => by
    rw [List.foldlM_cons] at hr
    cases hg : g s a with
    | error e =>
      rw [hg] at hr
      cases hr
    | ok s₁ =>
      rw [hg] at hr
      exact Passes.bind (h a s s₁ hg) (Passes.forM_foldlM h hr)

/-- An undisturbed program on its own returns. -/
theorem Passes.attempt {x : Txn σ ε α} {s s' : σ} {a : α} (h : Passes x s a s') :
    Txn.attempt x ⟨s, none⟩ = (.ok a, ⟨s', none⟩) := by
  unfold Txn.attempt
  rw [show x ⟨s, none⟩ = _ from h]

/-- **An undisturbed transaction commits.** -/
theorem Passes.transaction {x : Txn σ ε α} {s s' : σ} {a : α} (h : Passes x s a s') :
    Txn.transaction x ⟨s, none⟩ = (.ok a, ⟨s', none⟩) := by
  have hall : Passes (do Txn.tick; let a ← x; Txn.tick; pure a) s a s' :=
    (Passes.tick s).bind (h.bind ((Passes.tick s').bind (Passes.ret s' a)))
  exact hall.attempt

/-- Where no failure is to come, `x` itself refuses, with `e`. -/
def Refuses (x : Txn σ ε α) (s : σ) (e : ε) : Prop := x ⟨s, none⟩ = .error e

theorem Refuses.bind {x : Txn σ ε α} {f : α → Txn σ ε β} {s : σ} {e : ε} (hx : Refuses x s e) :
    Refuses (x >>= f) s e := by
  have h : (x ⟨s, none⟩ >>= fun p => f p.1 p.2) = .error e := by
    rw [show x ⟨s, none⟩ = _ from hx]
    rfl
  exact h

theorem Passes.refuses {x : Txn σ ε α} {f : α → Txn σ ε β} {s s₁ : σ} {a : α} {e : ε}
    (hx : Passes x s a s₁) (hf : Refuses (f a) s₁ e) : Refuses (x >>= f) s e := by
  have h : (x ⟨s, none⟩ >>= fun p => f p.1 p.2) = .error e := by
    rw [show x ⟨s, none⟩ = _ from hx]
    exact hf
  exact h

theorem Refuses.reject {ok : Bool} {e : ε} (s : σ) (h : ok = false) :
    Refuses (reject ok e : Txn σ ε Unit) s e := by
  unfold Txn.reject
  rw [if_neg (by simp [h])]
  rfl

theorem Refuses.okOr {o : Option α} {e : ε} (s : σ) (h : o = none) :
    Refuses (okOr o e : Txn σ ε α) s e := by
  rw [h]
  rfl

/-- A program on its own returns its refusal. -/
theorem Refuses.attempt {x : Txn σ ε α} {s : σ} {e : ε} (h : Refuses x s e) :
    Txn.attempt x ⟨s, none⟩ = (.error e, ⟨s, none⟩) := by
  unfold Txn.attempt
  rw [show x ⟨s, none⟩ = _ from h]

/-- **A transaction whose body refuses returns the refusal.** -/
theorem Refuses.transaction {x : Txn σ ε α} {s : σ} {e : ε} (h : Refuses x s e) :
    Txn.transaction x ⟨s, none⟩ = (.error e, ⟨s, none⟩) := by
  have hall : Refuses (do Txn.tick; let a ← x; Txn.tick; pure a) s e :=
    (Passes.tick s).refuses h.bind
  exact hall.attempt

end Txn
