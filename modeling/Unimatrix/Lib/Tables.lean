import Mathlib.Data.List.Flatten
import Mathlib.Logic.Function.Basic
import Unimatrix.Lib.HashMap

/-!
# A database of keyed tables

A database is a map for each table, with keys and rows of the table's own types. A row with its table and its
key is a `Rec`; where it is stored is its `Slot`.

* An insertion is refused where the slot is taken (unless the table replaces), where a check of the row fails,
  and where a slot the row refers to is empty (`Constraints`).
* **`insertAll_isSome_iff`**: which lists of rows are inserted without refusal (`Fits`);
  **`insertAll_at`**: what a database then holds, for rows with distinct slots.
* `dump`: the rows of some tables, one table after the other, those a test keeps. **`fits_dump`** says when
  they can be inserted elsewhere.
-/

namespace Tables

variable {T : Type} {K R : T → Type}

/-- A place for a row: a table and a key. -/
abbrev Slot (K : T → Type) : Type := Σ t, K t

/-- A row of some table. -/
structure Rec (K R : T → Type) where
  table : T
  key : K table
  row : R table

/-- Where a row is stored. -/
def Rec.slot (r : Rec K R) : Slot K := ⟨r.table, r.key⟩

/-- A database. -/
abbrev Db (K R : T → Type) : Type := ∀ t, HashMap (K t) (R t)

/-- The rows of a table. -/
def recs (db : Db K R) (t : T) : List (Rec K R) := (db t).pairs.map fun e => ⟨t, e.1, e.2⟩

section Store

variable [DecidableEq T] [∀ t, DecidableEq (K t)]

/-- The row at a slot. -/
def at? (db : Db K R) (s : Slot K) : Option (R s.1) := (db s.1).lookup s.2

/-- Store a row. -/
def put (db : Db K R) (r : Rec K R) : Db K R :=
  Function.update db r.table ((db r.table).insert r.key r.row)

@[simp] theorem at?_put_self (db : Db K R) (r : Rec K R) : at? (put db r) r.slot = some r.row := by
  unfold at? put Rec.slot
  rw [Function.update_self, AList.lookup_insert]

theorem at?_put_ne {db : Db K R} {r : Rec K R} {s : Slot K} (h : s ≠ r.slot) :
    at? (put db r) s = at? db s := by
  obtain ⟨t, k⟩ := s
  unfold at? put
  by_cases ht : t = r.table
  · subst ht
    rw [Function.update_self]
    refine AList.lookup_insert_ne fun hk => h ?_
    dsimp only at hk
    rw [hk]
    rfl
  · dsimp only
    rw [Function.update_of_ne ht]

omit [DecidableEq T] in
theorem mem_recs {db : Db K R} {t : T} {r : Rec K R} :
    r ∈ recs db t ↔ r.table = t ∧ at? db r.slot = some r.row := by
  unfold recs
  rw [List.mem_map]
  constructor
  · rintro ⟨⟨k, v⟩, hmem, rfl⟩
    exact ⟨rfl, HashMap.mem_pairs.mp hmem⟩
  · rintro ⟨rfl, hat⟩
    exact ⟨(r.key, r.row), HashMap.mem_pairs.mpr hat, rfl⟩

omit [DecidableEq T] [∀ t, DecidableEq (K t)] in
theorem recs_slots_nodup (db : Db K R) (t : T) : ((recs db t).map Rec.slot).Nodup := by
  have hslots : (recs db t).map Rec.slot = ((db t).pairs.map Prod.fst).map (Sigma.mk t) := by
    unfold recs
    rw [List.map_map, List.map_map]
    rfl
  rw [hslots]
  exact ((db t).pairs_keys_nodup).map sigma_mk_injective

/-! ## Insertion -/

/-- The constraints on a row. -/
structure Constraints (K R : T → Type) where
  replaces : T → Bool
  check : Rec K R → Bool
  refs : Rec K R → List (Slot K)

variable (c : Constraints K R)

/-- The row can be inserted. -/
def Constraints.allows (db : Db K R) (r : Rec K R) : Bool :=
  (c.replaces r.table || (at? db r.slot).isNone) && c.check r &&
    (c.refs r).all fun s => (at? db s).isSome

/-- `INSERT`. -/
def insert (db : Db K R) (r : Rec K R) : Option (Db K R) :=
  if c.allows db r then some (put db r) else none

/-- Insert one row after the other. -/
def insertAll : List (Rec K R) → Db K R → Option (Db K R)
  | [], db => some db
  | r :: l, db => (insert c db r).bind (insertAll l)

/-- What must hold of a row that comes after `pre`. -/
structure Admitted (db : Db K R) (pre : List (Rec K R)) (r : Rec K R) : Prop where
  free : c.replaces r.table = true ∨ (at? db r.slot = none ∧ ∀ r' ∈ pre, r'.slot ≠ r.slot)
  check : c.check r = true
  refs : ∀ s ∈ c.refs r, (at? db s).isSome = true ∨ ∃ r' ∈ pre, r'.slot = s

/-- Every row is admitted after those before it. -/
def Fits (db : Db K R) (l : List (Rec K R)) : Prop :=
  ∀ pre r post, l = pre ++ r :: post → Admitted c db pre r

variable {c}

theorem isSome_at?_put {db : Db K R} {r : Rec K R} {s : Slot K} :
    (at? (put db r) s).isSome = true ↔ (at? db s).isSome = true ∨ r.slot = s := by
  by_cases h : s = r.slot
  · subst h
    rw [at?_put_self]
    exact iff_of_true rfl (.inr rfl)
  · rw [at?_put_ne h]
    simp [Ne.symm h]

omit [DecidableEq T] in
theorem allows_iff {db : Db K R} {r : Rec K R} : c.allows db r = true ↔ Admitted c db [] r := by
  unfold Constraints.allows
  rw [Bool.and_eq_true, Bool.and_eq_true, Bool.or_eq_true, List.all_eq_true, Option.isNone_iff_eq_none]
  constructor
  · rintro ⟨⟨hfree, hcheck⟩, hrefs⟩
    exact ⟨hfree.imp_right fun h => ⟨h, fun _ hr => absurd hr List.not_mem_nil⟩, hcheck,
      fun s hs => .inl (hrefs s hs)⟩
  · rintro ⟨hfree, hcheck, hrefs⟩
    refine ⟨⟨hfree.imp_right And.left, hcheck⟩, fun s hs => ?_⟩
    rcases hrefs s hs with h | ⟨r', hr', -⟩
    · exact h
    · exact absurd hr' List.not_mem_nil

theorem insert_eq_some_iff {db db' : Db K R} {r : Rec K R} :
    insert c db r = some db' ↔ Admitted c db [] r ∧ db' = put db r := by
  unfold insert
  rw [← allows_iff]
  by_cases h : c.allows db r = true
  · rw [if_pos h, Option.some_inj, and_iff_right h]
    exact eq_comm
  · rw [if_neg h]
    exact iff_of_false (fun h => by cases h) fun hc => h hc.1

/-- What was stored counts as coming before. -/
theorem admitted_put {db : Db K R} {r₀ r : Rec K R} {pre : List (Rec K R)} :
    Admitted c (put db r₀) pre r ↔ Admitted c db (r₀ :: pre) r := by
  have hfree : at? (put db r₀) r.slot = none ↔ at? db r.slot = none ∧ r₀.slot ≠ r.slot := by
    rw [← Option.isNone_iff_eq_none, ← Option.not_isSome, Bool.not_eq_true', ← Bool.not_eq_true,
      isSome_at?_put, not_or, Bool.not_eq_true, Option.isSome_eq_false_iff, Option.isNone_iff_eq_none]
  constructor
  · rintro ⟨hf, hcheck, hrefs⟩
    refine ⟨hf.imp_right ?_, hcheck, fun s hs => ?_⟩
    · rintro ⟨hnone, hpre⟩
      refine ⟨(hfree.mp hnone).1, fun r' hr' => ?_⟩
      rcases List.mem_cons.mp hr' with rfl | hr'
      · exact (hfree.mp hnone).2
      · exact hpre r' hr'
    · rcases hrefs s hs with h | ⟨r', hr', h⟩
      · exact (isSome_at?_put.mp h).imp_right fun h => ⟨r₀, List.mem_cons_self, h⟩
      · exact .inr ⟨r', List.mem_cons_of_mem _ hr', h⟩
  · rintro ⟨hf, hcheck, hrefs⟩
    refine ⟨hf.imp_right ?_, hcheck, fun s hs => ?_⟩
    · rintro ⟨hnone, hpre⟩
      exact ⟨hfree.mpr ⟨hnone, hpre r₀ List.mem_cons_self⟩,
        fun r' hr' => hpre r' (List.mem_cons_of_mem _ hr')⟩
    · rcases hrefs s hs with h | ⟨r', hr', h⟩
      · exact .inl (isSome_at?_put.mpr (.inl h))
      · rcases List.mem_cons.mp hr' with rfl | hr'
        · exact .inl (isSome_at?_put.mpr (.inr h))
        · exact .inr ⟨r', hr', h⟩

theorem fits_cons {db : Db K R} {r : Rec K R} {l : List (Rec K R)} :
    Fits c db (r :: l) ↔ Admitted c db [] r ∧ Fits c (put db r) l := by
  constructor
  · intro h
    refine ⟨h [] r l rfl, fun pre r' post heq => admitted_put.mpr ?_⟩
    exact h (r :: pre) r' post (by rw [heq, List.cons_append])
  · rintro ⟨hr, hl⟩ pre r' post heq
    cases pre with
    | nil =>
      obtain ⟨rfl, rfl⟩ := List.cons.inj heq
      exact hr
    | cons r₀ pre =>
      obtain ⟨rfl, rfl⟩ := List.cons.inj heq
      exact admitted_put.mp (hl pre r' post rfl)

/-- **Which rows are inserted without refusal.** -/
theorem insertAll_isSome_iff {l : List (Rec K R)} {db : Db K R} :
    (insertAll c l db).isSome = true ↔ Fits c db l := by
  induction l generalizing db with
  | nil =>
    refine ⟨fun _ pre r post heq => ?_, fun _ => rfl⟩
    cases pre <;> cases heq
  | cons r l ih =>
    rw [fits_cons, ← allows_iff]
    unfold insertAll insert
    by_cases h : c.allows db r = true
    · rw [if_pos h, Option.bind_some, ih]
      exact (and_iff_right h).symm
    · rw [if_neg h]
      exact iff_of_false Bool.false_ne_true fun hc => h hc.1

omit [DecidableEq T] in
/-- Whether rows fit depends on their slots, their checks and what they refer to. -/
theorem Fits.map {db : Db K R} {l : List (Rec K R)} (h : Fits c db l) {f : Rec K R → Rec K R}
    (hslot : ∀ r, (f r).slot = r.slot) (hcheck : ∀ r, c.check (f r) = c.check r)
    (hrefs : ∀ r, c.refs (f r) = c.refs r) : Fits c db (l.map f) := by
  intro pre r post heq
  obtain ⟨pre₀, rest, rfl, rfl, hrest⟩ := List.map_eq_append_iff.mp heq
  obtain ⟨r₀, post₀, rfl, rfl, rfl⟩ := List.map_eq_cons_iff.mp hrest
  obtain ⟨hfree, hc, hr⟩ := h pre₀ r₀ post₀ rfl
  have htable : (f r₀).table = r₀.table := congrArg Sigma.fst (hslot r₀)
  refine ⟨?_, (hcheck r₀).trans hc, ?_⟩
  · rw [htable, hslot]
    refine hfree.imp_right fun hfree => ⟨hfree.1, fun r' hr' => ?_⟩
    obtain ⟨r₁, hr₁, rfl⟩ := List.mem_map.mp hr'
    rw [hslot]
    exact hfree.2 r₁ hr₁
  · rw [hrefs]
    intro s hs
    refine (hr s hs).imp_right ?_
    rintro ⟨r₁, hr₁, hslot₁⟩
    exact ⟨f r₁, List.mem_map_of_mem hr₁, (hslot r₁).trans hslot₁⟩

/-- Rows that fit share no slot, but where their table replaces. -/
theorem Fits.pairwise {db : Db K R} {l : List (Rec K R)} (h : Fits c db l) :
    l.Pairwise fun r r' => c.replaces r'.table = true ∨ r.slot ≠ r'.slot := by
  induction l generalizing db with
  | nil => exact List.Pairwise.nil
  | cons r l ih =>
    refine List.pairwise_cons.mpr ⟨fun r' hr' => ?_, ih (fits_cons.mp h).2⟩
    obtain ⟨pre, post, rfl⟩ := List.append_of_mem hr'
    exact (h (r :: pre) r' post rfl).free.imp_right fun hfree => hfree.2 r List.mem_cons_self

/-- What the constraints keep: every row passes its check and refers to rows that are there. -/
structure Consistent (c : Constraints K R) (db : Db K R) : Prop where
  check : ∀ r, at? db r.slot = some r.row → c.check r = true
  refs : ∀ r, at? db r.slot = some r.row → ∀ s ∈ c.refs r, (at? db s).isSome = true

/-- What no row is stored at stays. -/
theorem insertAll_at_ne {l : List (Rec K R)} {db db' : Db K R} (h : insertAll c l db = some db')
    {s : Slot K} (hs : ∀ r ∈ l, r.slot ≠ s) : at? db' s = at? db s := by
  induction l generalizing db with
  | nil =>
    cases h
    rfl
  | cons r l ih =>
    obtain ⟨db₁, h₁, h⟩ := Option.bind_eq_some_iff.mp h
    obtain ⟨-, rfl⟩ := insert_eq_some_iff.mp h₁
    rw [ih h fun r' hr' => hs r' (List.mem_cons_of_mem _ hr')]
    exact at?_put_ne (hs r List.mem_cons_self).symm

/-- **What was inserted is stored**, where no two rows share a slot. -/
theorem insertAll_at {l : List (Rec K R)} (hnodup : (l.map Rec.slot).Nodup) {db db' : Db K R}
    (h : insertAll c l db = some db') {r : Rec K R} (hr : r ∈ l) : at? db' r.slot = some r.row := by
  induction l generalizing db with
  | nil => exact absurd hr List.not_mem_nil
  | cons r₀ l ih =>
    obtain ⟨db₁, h₁, h₂⟩ := Option.bind_eq_some_iff.mp h
    rw [List.map_cons, List.nodup_cons] at hnodup
    rcases List.mem_cons.mp hr with rfl | hr
    · have hne : ∀ r' ∈ l, r'.slot ≠ r.slot := fun r' hr' heq =>
        hnodup.1 (heq ▸ List.mem_map_of_mem hr')
      obtain ⟨-, rfl⟩ := insert_eq_some_iff.mp h₁
      rw [insertAll_at_ne h₂ hne]
      exact at?_put_self db r
    · exact ih hnodup.2 h₂ hr

/-- What is stored was there before or was put there. -/
theorem eq_or_of_at?_put {db : Db K R} {r₀ r : Rec K R} (h : at? (put db r₀) r.slot = some r.row) :
    r = r₀ ∨ at? db r.slot = some r.row := by
  by_cases hslot : r.slot = r₀.slot
  · obtain ⟨t, k, v⟩ := r
    obtain ⟨t₀, k₀, v₀⟩ := r₀
    cases hslot
    obtain rfl : v₀ = v := Option.some.inj ((at?_put_self db ⟨t, k, v₀⟩).symm.trans h)
    exact .inl rfl
  · rw [at?_put_ne hslot] at h
    exact .inr h

/-- **An insertion keeps the constraints.** -/
theorem Consistent.insert {db db' : Db K R} {r : Rec K R} (h : Consistent c db)
    (hins : insert c db r = some db') : Consistent c db' := by
  obtain ⟨⟨-, hcheck, hrefs⟩, rfl⟩ := insert_eq_some_iff.mp hins
  constructor
  · intro r' hr'
    rcases eq_or_of_at?_put hr' with rfl | hr'
    · exact hcheck
    · exact h.check r' hr'
  · intro r' hr' s hs
    refine isSome_at?_put.mpr (.inl ?_)
    rcases eq_or_of_at?_put hr' with rfl | hr'
    · refine (hrefs s hs).resolve_right ?_
      rintro ⟨r'', hmem, -⟩
      exact List.not_mem_nil hmem
    · exact h.refs r' hr' s hs

/-- What is stored was there before or was inserted. -/
theorem mem_of_insertAll {l : List (Rec K R)} {db db' : Db K R} (h : insertAll c l db = some db')
    {r : Rec K R} (hat : at? db' r.slot = some r.row) : at? db r.slot = some r.row ∨ r ∈ l := by
  induction l generalizing db with
  | nil =>
    cases h
    exact .inl hat
  | cons r₀ l ih =>
    obtain ⟨db₁, h₁, h₂⟩ := Option.bind_eq_some_iff.mp h
    obtain ⟨-, rfl⟩ := insert_eq_some_iff.mp h₁
    rcases ih h₂ with hat₁ | hmem
    · rcases eq_or_of_at?_put hat₁ with rfl | hat
      · exact .inr List.mem_cons_self
      · exact .inl hat
    · exact .inr (List.mem_cons_of_mem _ hmem)

/-- A slot is taken that was taken before or that a row is stored at. -/
theorem isSome_insertAll {l : List (Rec K R)} {db db' : Db K R} (h : insertAll c l db = some db')
    {s : Slot K} :
    (at? db' s).isSome = true ↔ (at? db s).isSome = true ∨ ∃ r ∈ l, r.slot = s := by
  induction l generalizing db with
  | nil =>
    cases h
    simp
  | cons r l ih =>
    obtain ⟨db₁, h₁, h₂⟩ := Option.bind_eq_some_iff.mp h
    obtain ⟨-, rfl⟩ := insert_eq_some_iff.mp h₁
    rw [ih h₂, isSome_at?_put]
    simp only [List.mem_cons, exists_eq_or_imp, or_assoc]

/-- A row of a table that does not replace stays as it was inserted. -/
theorem insertAll_at_of_not_replaces {l : List (Rec K R)} {db db' : Db K R}
    (h : insertAll c l db = some db') {r : Rec K R} (hr : r ∈ l) (hrep : c.replaces r.table = false) :
    at? db' r.slot = some r.row := by
  have hfits : Fits c db l := insertAll_isSome_iff.mp (by rw [h]; rfl)
  induction l generalizing db with
  | nil => exact absurd hr List.not_mem_nil
  | cons r₀ l ih =>
    obtain ⟨db₁, h₁, h₂⟩ := Option.bind_eq_some_iff.mp h
    obtain ⟨-, rfl⟩ := insert_eq_some_iff.mp h₁
    rcases List.mem_cons.mp hr with rfl | hr
    · rw [insertAll_at_ne h₂]
      · exact at?_put_self db r
      · intro r' hr' hslot
        -- a later row of this slot would have been refused
        obtain ⟨pre, post, rfl⟩ := List.append_of_mem hr'
        obtain ⟨hfree, -, -⟩ := hfits (r :: pre) r' post rfl
        have htable : r'.table = r.table := congrArg Sigma.fst hslot
        rw [htable, hrep] at hfree
        exact (hfree.resolve_left Bool.false_ne_true).2 r List.mem_cons_self hslot.symm
    · exact ih h₂ hr (fits_cons.mp hfits).2

end Store

/-! ## Dumps -/

/-- The rows of some tables, those that are kept, in an order of each table's own. -/
def dump (tables : List T) (arrange : List (Rec K R) → List (Rec K R)) (keep : Rec K R → Bool)
    (db : Db K R) : List (Rec K R) :=
  tables.flatMap fun t => (arrange (recs db t)).filter keep

section Dump

variable [∀ t, DecidableEq (K t)] {tables : List T}
  {arrange : List (Rec K R) → List (Rec K R)} {keep : Rec K R → Bool} {db : Db K R}

theorem mem_dump (harrange : ∀ l, (arrange l).Perm l) {r : Rec K R} :
    r ∈ dump tables arrange keep db ↔
      r.table ∈ tables ∧ at? db r.slot = some r.row ∧ keep r = true := by
  unfold dump
  rw [List.mem_flatMap]
  constructor
  · rintro ⟨t, ht, hmem⟩
    rw [List.mem_filter, (harrange _).mem_iff, mem_recs] at hmem
    obtain ⟨⟨rfl, hat⟩, hkeep⟩ := hmem
    exact ⟨ht, hat, hkeep⟩
  · rintro ⟨ht, hat, hkeep⟩
    refine ⟨r.table, ht, ?_⟩
    rw [List.mem_filter, (harrange _).mem_iff, mem_recs]
    exact ⟨⟨rfl, hat⟩, hkeep⟩

/-- No slot is dumped twice. -/
theorem dump_slots_nodup (harrange : ∀ l, (arrange l).Perm l) (htables : tables.Nodup) :
    ((dump tables arrange keep db).map Rec.slot).Nodup := by
  unfold dump
  rw [List.map_flatMap, List.nodup_flatMap]
  constructor
  · intro t _
    refine List.Nodup.sublist (List.filter_sublist.map _) ?_
    exact ((harrange _).map _).nodup_iff.mpr (recs_slots_nodup db t)
  · refine htables.imp ?_
    intro t t' hne s hs hs'
    obtain ⟨r, hr, rfl⟩ := List.mem_map.mp hs
    obtain ⟨r', hr', heq⟩ := List.mem_map.mp hs'
    rw [List.mem_filter, (harrange _).mem_iff, mem_recs] at hr hr'
    refine hne ?_
    rw [← hr.1.1, ← hr'.1.1]
    exact (congrArg Sigma.fst heq).symm

/-- The tables come one after the other. -/
theorem dump_sorted (harrange : ∀ l, (arrange l).Perm l) {before : T → T → Prop}
    (htables : tables.Pairwise before) :
    (dump tables arrange keep db).Pairwise fun r r' => r.table = r'.table ∨ before r.table r'.table := by
  have htable : ∀ {t r}, r ∈ (arrange (recs db t)).filter keep → r.table = t := by
    intro t r hr
    rw [List.mem_filter, (harrange _).mem_iff, mem_recs] at hr
    exact hr.1.1
  unfold dump
  rw [List.pairwise_flatMap]
  constructor
  · intro t _
    refine List.pairwise_iff_forall_sublist.mpr fun {r r'} hrr => .inl ?_
    rw [htable (hrr.subset List.mem_cons_self),
      htable (hrr.subset (List.mem_cons_of_mem _ List.mem_cons_self))]
  · refine htables.imp ?_
    intro t t' htt r hr r' hr'
    rw [htable hr, htable hr']
    exact .inr htt

/-- **What can be inserted elsewhere.** Each slot a kept row refers to is taken there or is one of a kept row
of a table dumped before. -/
theorem fits_dump (harrange : ∀ l, (arrange l).Perm l) {rank : T → Nat}
    (htables : tables.Pairwise fun t t' => rank t < rank t') {c : Constraints K R} {db' : Db K R}
    (hfree : ∀ r ∈ dump tables arrange keep db,
      c.replaces r.table = true ∨ at? db' r.slot = none)
    (hcheck : ∀ r ∈ dump tables arrange keep db, c.check r = true)
    (hrefs : ∀ r ∈ dump tables arrange keep db, ∀ s ∈ c.refs r, (at? db' s).isSome = true ∨
      ∃ r' ∈ dump tables arrange keep db, r'.slot = s ∧ rank r'.table < rank r.table) :
    Fits c db' (dump tables arrange keep db) := by
  have hnodup : ((dump tables arrange keep db).map Rec.slot).Nodup := dump_slots_nodup harrange
    (htables.imp fun {t t'} h heq => absurd (heq ▸ h) (lt_irrefl _))
  have hsorted : (dump tables arrange keep db).Pairwise fun r r' =>
      r.table = r'.table ∨ rank r.table < rank r'.table := dump_sorted harrange htables
  intro pre r post heq
  have hmem : r ∈ dump tables arrange keep db := by
    rw [heq]
    exact List.mem_append_right _ List.mem_cons_self
  refine ⟨(hfree r hmem).imp_right fun h => ⟨h, fun r' hr' hslot => ?_⟩, hcheck r hmem, fun s hs => ?_⟩
  · rw [heq, List.map_append, List.nodup_append] at hnodup
    exact hnodup.2.2 _ (List.mem_map_of_mem hr') _ (List.mem_map_of_mem List.mem_cons_self) hslot
  · rcases hrefs r hmem s hs with h | ⟨r', hr', hslot, hrank⟩
    · exact .inl h
    · refine .inr ⟨r', ?_, hslot⟩
      rw [heq] at hr' hsorted
      rcases List.mem_append.mp hr' with hr' | hr'
      · exact hr'
      · rcases List.mem_cons.mp hr' with rfl | hr'
        · exact absurd hrank (lt_irrefl _)
        · -- a row after `r` is of the same table or a later one
          have hafter := (List.pairwise_cons.mp (List.pairwise_append.mp hsorted).2.1).1 r' hr'
          rcases hafter with htable | hlt
          · rw [htable] at hrank
            exact absurd hrank (lt_irrefl _)
          · exact absurd hrank (Nat.not_lt.mpr hlt.le)

end Dump

end Tables
