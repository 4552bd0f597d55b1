import Mathlib.Data.List.AList
import Mathlib.Data.List.MinMax

/-!
# Hash maps with an unspecified iteration order

A hash map is an `AList`: `lookup`, `insert` and `erase` say what it holds, and no proof looks at the
order of its entries. A program that iterates sees the entries in an order the hasher picks, so every
operation that iterates takes an `IterOrder`, any rearrangement of the entries (`iter`). A result
proved for every `IterOrder` holds whatever the hasher does.

* `mem_iter`: an iteration meets exactly the entries of the map, each key once (`iter_keys_nodup`).
* `collect`: a map built from a list of pairs, where a later pair replaces an earlier one of its key.
* `retain`, and what many changes one after the other make of a value (`lookup_foldl_erase`, `lookup_foldl_insert`).
* `count`: how many values satisfy a test, and what `insert` and `erase` do to that number.
* `Inverse`: two maps that are each other's inverse, and what keeps them so (`Inverse.insert`, `Inverse.erase`,
  `inverse_collect`).
* `firstMin`: the first entry of an iteration with the least key, as `Iterator::min_by_key` picks it.
-/

/-- A hash map. -/
abbrev HashMap (K V : Type) : Type := AList fun _ : K => V

namespace HashMap

variable {K V : Type}

/-- The order in which a map is iterated: some rearrangement of its entries. -/
structure IterOrder (K V : Type) where
  arrange : List (K × V) → List (K × V)
  perm : ∀ l, (arrange l).Perm l

/-- The entries as stored. -/
def IterOrder.stored : IterOrder K V := ⟨id, fun _ => List.Perm.refl _⟩

/-- The entries as pairs. -/
def pairs (m : HashMap K V) : List (K × V) := m.entries.map fun e => (e.1, e.2)

/-- `map.iter()`. -/
def iter (m : HashMap K V) (o : IterOrder K V) : List (K × V) := o.arrange m.pairs

/-- `map.len()`. -/
def len (m : HashMap K V) : Nat := m.entries.length

theorem iter_perm (m : HashMap K V) (o : IterOrder K V) : (m.iter o).Perm m.pairs := o.perm _

theorem pairs_keys_nodup (m : HashMap K V) : (m.pairs.map Prod.fst).Nodup := by
  unfold pairs
  rw [List.map_map]
  exact m.nodupKeys

theorem iter_keys_nodup (m : HashMap K V) (o : IterOrder K V) :
    ((m.iter o).map Prod.fst).Nodup :=
  ((m.iter_perm o).map Prod.fst).nodup_iff.mpr m.pairs_keys_nodup

/-- How many values satisfy `p`. -/
def count (m : HashMap K V) (p : V → Bool) : Nat := m.pairs.countP fun e => p e.2

theorem count_le_len (m : HashMap K V) (p : V → Bool) : m.count p ≤ m.pairs.length :=
  List.countP_le_length

section Keys

variable [DecidableEq K]

theorem mem_pairs {m : HashMap K V} {k : K} {v : V} : (k, v) ∈ m.pairs ↔ m.lookup k = some v := by
  unfold pairs
  rw [List.mem_map, ← Option.mem_def, AList.mem_lookup_iff]
  constructor
  · rintro ⟨⟨k', v'⟩, he, heq⟩
    obtain ⟨rfl, rfl⟩ := Prod.mk.inj heq
    exact he
  · exact fun h => ⟨⟨k, v⟩, h, rfl⟩

/-- **An iteration meets exactly the entries of the map.** -/
theorem mem_iter {m : HashMap K V} {o : IterOrder K V} {k : K} {v : V} :
    (k, v) ∈ m.iter o ↔ m.lookup k = some v :=
  (m.iter_perm o).mem_iff.trans mem_pairs

theorem lookup_erase_eq (m : HashMap K V) (k k' : K) :
    (m.erase k').lookup k = if k = k' then none else m.lookup k := by
  split
  · rename_i h
    rw [h, AList.lookup_erase]
  · rename_i h
    exact AList.lookup_erase_ne h

theorem lookup_insert_eq (m : HashMap K V) (k k' : K) (v : V) :
    (m.insert k' v).lookup k = if k = k' then some v else m.lookup k := by
  split
  · rename_i h
    rw [h, AList.lookup_insert]
  · rename_i h
    exact AList.lookup_insert_ne h

/-! ## Collecting -/

/-- `iter.collect::<HashMap<_, _>>()`. -/
def collect (l : List (K × V)) : HashMap K V := l.foldl (fun m e => m.insert e.1 e.2) ∅

theorem collect_concat (l : List (K × V)) (e : K × V) :
    collect (l ++ [e]) = (collect l).insert e.1 e.2 := by
  unfold collect
  rw [List.foldl_append]
  rfl

theorem mem_of_lookup_collect {l : List (K × V)} {k : K} {v : V}
    (h : (collect l).lookup k = some v) : (k, v) ∈ l := by
  induction l using List.reverseRecOn with
  | nil => cases h
  | append_singleton l e ih =>
    rw [collect_concat, lookup_insert_eq] at h
    rw [List.mem_append]
    split at h
    · rename_i hk
      cases h
      subst hk
      exact Or.inr List.mem_cons_self
    · exact Or.inl (ih h)

/-- With distinct keys nothing is replaced. -/
theorem lookup_collect {l : List (K × V)} (hl : (l.map Prod.fst).Nodup) {k : K} {v : V} :
    (collect l).lookup k = some v ↔ (k, v) ∈ l := by
  refine ⟨mem_of_lookup_collect, fun h => ?_⟩
  induction l using List.reverseRecOn with
  | nil => cases h
  | append_singleton l e ih =>
    rw [List.map_append, List.nodup_append] at hl
    rw [collect_concat, lookup_insert_eq]
    rcases List.mem_append.mp h with h | h
    · have hne : k ≠ e.1 := by
        intro hk
        exact hl.2.2 k (List.mem_map.mpr ⟨(k, v), h, rfl⟩) k (by simp [hk]) rfl
      rw [if_neg hne]
      exact ih hl.1 h
    · obtain rfl := List.mem_singleton.mp h
      rw [if_pos rfl]

theorem lookup_collect_map {W : Type} (g : V → W) (l : List (K × V)) (k : K) :
    (collect (l.map fun e => (e.1, g e.2))).lookup k = ((collect l).lookup k).map g := by
  induction l using List.reverseRecOn with
  | nil => rfl
  | append_singleton l e ih =>
    rw [List.map_append, List.map_singleton, collect_concat, collect_concat, lookup_insert_eq,
      lookup_insert_eq, ih]
    split <;> rfl

/-- Where the key tells the value, nothing depends on what was replaced. -/
theorem lookup_collect_keyed (g : K → V) (ks : List K) (k : K) :
    (collect (ks.map fun k => (k, g k))).lookup k = if k ∈ ks then some (g k) else none := by
  induction ks using List.reverseRecOn with
  | nil => rfl
  | append_singleton ks k' ih =>
    rw [List.map_append, List.map_singleton, collect_concat, lookup_insert_eq, ih]
    by_cases hk : k = k'
    · simp [hk]
    · simp [hk]

/-! ## Changing many keys -/

/-- `map.retain(p)`. -/
def retain (m : HashMap K V) (p : K → V → Bool) : HashMap K V :=
  ⟨m.entries.filter fun e => p e.1 e.2, m.nodupKeys.sublist List.filter_sublist⟩

theorem lookup_retain (m : HashMap K V) (p : K → V → Bool) (k : K) :
    (m.retain p).lookup k = (m.lookup k).filter (p k) := by
  refine Option.ext fun v => ?_
  rw [← Option.mem_def, AList.mem_lookup_iff, Option.filter_eq_some_iff, ← Option.mem_def, AList.mem_lookup_iff]
  exact List.mem_filter

/-- Keys that are removed one after the other. -/
theorem lookup_foldl_erase (ks : List K) (m : HashMap K V) (k : K) :
    (ks.foldl (fun m k' => m.erase k') m).lookup k = if k ∈ ks then none else m.lookup k := by
  induction ks generalizing m with
  | nil => rfl
  | cons k' ks ih =>
    rw [List.foldl_cons, ih, lookup_erase_eq]
    by_cases hk : k = k'
    · simp [hk]
    · simp [hk]

/-- Different keys whose values are replaced one after the other, each by one made of its old value. -/
theorem lookup_foldl_insert (f : Option V → V) {ks : List K} (hks : ks.Nodup) (m : HashMap K V) (k : K) :
    (ks.foldl (fun m k' => m.insert k' (f (m.lookup k'))) m).lookup k =
      if k ∈ ks then some (f (m.lookup k)) else m.lookup k := by
  induction ks generalizing m with
  | nil => rfl
  | cons k' ks ih =>
    obtain ⟨hnot, hks⟩ := List.nodup_cons.mp hks
    rw [List.foldl_cons, ih hks, lookup_insert_eq]
    by_cases hk : k = k'
    · subst hk
      simp [hnot]
    · simp [hk]

/-! ## Counting -/

/-- A key that is present heads the rest of the map. -/
theorem pairs_perm {m : HashMap K V} {k : K} {v : V} (h : m.lookup k = some v) :
    m.pairs.Perm ((k, v) :: pairs (m.erase k)) := by
  have hk : k ∈ m.keys := AList.lookup_isSome.mp (by rw [h]; rfl)
  obtain ⟨w, l₁, l₂, -, hm, he⟩ := List.exists_of_kerase hk
  have hw : m.lookup k = some w :=
    AList.mem_lookup_iff.mpr (by rw [hm]; exact List.mem_append_right _ List.mem_cons_self)
  obtain rfl : w = v := Option.some.inj (hw.symm.trans h)
  have herase : (m.erase k).entries = l₁ ++ l₂ := he
  unfold pairs
  rw [hm, herase, List.map_append, List.map_append, List.map_cons]
  exact List.perm_middle

theorem count_erase {m : HashMap K V} {k : K} {v : V} (h : m.lookup k = some v) (p : V → Bool) :
    m.count p = count (m.erase k) p + if p v then 1 else 0 := by
  unfold count
  rw [(pairs_perm h).countP_eq, List.countP_cons]

theorem erase_of_lookup_none {m : HashMap K V} {k : K} (h : m.lookup k = none) :
    m.erase k = m := by
  refine AList.ext ?_
  exact List.kerase_of_notMem_keys (AList.lookup_eq_none.mp h)

theorem count_insert (m : HashMap K V) (k : K) (v : V) (p : V → Bool) :
    count (m.insert k v) p = count (m.erase k) p + if p v then 1 else 0 := by
  have hp : pairs (m.insert k v) = (k, v) :: pairs (m.erase k) := rfl
  unfold count
  rw [hp, List.countP_cons]

/-- A new key adds its value. -/
theorem count_insert_new {m : HashMap K V} {k : K} (h : m.lookup k = none) (v : V) (p : V → Bool) :
    count (m.insert k v) p = m.count p + if p v then 1 else 0 := by
  rw [count_insert, erase_of_lookup_none h]

/-- A replaced value leaves and the new one enters. -/
theorem count_insert_replace {m : HashMap K V} {k : K} {w : V} (h : m.lookup k = some w) (v : V)
    (p : V → Bool) :
    count (m.insert k v) p + (if p w then 1 else 0) = m.count p + if p v then 1 else 0 := by
  rw [count_insert, count_erase h]
  omega

theorem count_pos {m : HashMap K V} {k : K} {v : V} (h : m.lookup k = some v) {p : V → Bool}
    (hv : p v = true) : 0 < m.count p := by
  rw [count_erase h, if_pos hv]
  omega

end Keys

/-! ## Inverse maps -/

section Inverse

variable [DecidableEq K] [DecidableEq V]

/-- Each map is the inverse of the other. -/
def Inverse (m : HashMap K V) (n : HashMap V K) : Prop := ∀ k v, m.lookup k = some v ↔ n.lookup v = some k

/-- The map without the key, if there is one. -/
def eraseOpt (m : HashMap K V) : Option K → HashMap K V
  | some k => m.erase k
  | none => m

theorem inverse_empty : Inverse (∅ : HashMap K V) ∅ := by
  intro k v
  rw [AList.lookup_empty, AList.lookup_empty]
  simp

/-- **A pair is put in both maps**: the value that the key had leaves the other map first, and nothing else has the
new value. -/
theorem Inverse.insert {m : HashMap K V} {n : HashMap V K} (h : Inverse m n) {k : K} {v : V}
    (hv : ∀ k', n.lookup v = some k' → k' = k) :
    Inverse (m.insert k v) ((eraseOpt n (m.lookup k)).insert v k) := by
  have herased : ∀ v', (eraseOpt n (m.lookup k)).lookup v' = if m.lookup k = some v' then none else n.lookup v' := by
    intro v'
    cases hold : m.lookup k with
    | none => rfl
    | some old =>
      rw [eraseOpt, lookup_erase_eq]
      simp [eq_comm]
  intro k' v'
  rw [lookup_insert_eq, lookup_insert_eq, herased]
  by_cases hk : k' = k
  · subst hk
    by_cases hveq : v' = v
    · simp [hveq]
    · have hother : ¬ v = v' := fun heq => hveq heq.symm
      by_cases hold : m.lookup k' = some v'
      · simp [hveq, hother, hold]
      · have hno : n.lookup v' ≠ some k' := fun hn => hold ((h k' v').mpr hn)
        simp [hveq, hother, hold, hno]
  · by_cases hveq : v' = v
    · subst hveq
      have hno : m.lookup k' ≠ some v' := fun hm => hk (hv k' ((h k' v').mp hm))
      have hother : ¬ k = k' := fun heq => hk heq.symm
      simp [hk, hno, hother]
    · by_cases hold : m.lookup k = some v'
      · have hno : m.lookup k' ≠ some v' := fun hm =>
          hk (Option.some.inj (((h k' v').mp hm).symm.trans ((h k v').mp hold)))
        simp [hk, hveq, hold, hno]
      · rw [if_neg hk, if_neg hveq, if_neg hold]
        exact h k' v'

/-- **A pair is taken out of both maps.** -/
theorem Inverse.erase {m : HashMap K V} {n : HashMap V K} (h : Inverse m n) {k : K} {v : V}
    (hk : m.lookup k = some v) : Inverse (m.erase k) (n.erase v) := by
  intro k' v'
  rw [lookup_erase_eq, lookup_erase_eq]
  by_cases hkeq : k' = k
  · subst hkeq
    by_cases hveq : v' = v
    · simp [hveq]
    · have hno : n.lookup v' ≠ some k' := fun hn => hveq (Option.some.inj (((h k' v').mpr hn).symm.trans hk))
      simp [hveq, hno]
  · by_cases hveq : v' = v
    · subst hveq
      have hno : m.lookup k' ≠ some v' := fun hm =>
        hkeq (Option.some.inj (((h k' v').mp hm).symm.trans ((h k v').mp hk)))
      simp [hkeq, hno]
    · rw [if_neg hkeq, if_neg hveq]
      exact h k' v'

/-- Maps collected from pairs in which no key and no value comes twice. -/
theorem inverse_collect {l : List (K × V)} (hkeys : (l.map Prod.fst).Nodup) (hvalues : (l.map Prod.snd).Nodup) :
    Inverse (collect l) (collect (l.map Prod.swap)) := by
  have hswapped : ((l.map Prod.swap).map Prod.fst).Nodup := by
    rw [List.map_map]
    exact hvalues
  intro k v
  rw [lookup_collect hkeys, lookup_collect hswapped]
  simp

end Inverse

/-! ## Picking an entry -/

/-- `iter().min_by_key(f)`: the first entry with the least `f`. -/
def firstMin {α : Type} (f : α → Nat) (l : List α) : Option α := l.argmin f

end HashMap
