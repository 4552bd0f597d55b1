import Mathlib.Data.List.Nodup

/-!
# Objects as fields in order

An object has named fields, each name once, in the order in which they were added. Writing a field that is there keeps its
place.

* `get_set_self`, `get_set_of_ne`, `get_erase`: what a field holds after a write and after a deletion.
* `ext_get`: objects are equal if they have the same names in the same order and hold the same.
* **`List.Nodup.foldl_at`**: a loop over names, each pass of which touches its own field only.
-/

/-- An object. -/
structure Fields (K V : Type) where
  entries : List (K × V)
  nodup : (entries.map Prod.fst).Nodup

namespace Fields

variable {K V W : Type}

/-- The object without fields. -/
def empty : Fields K V := ⟨[], List.nodup_nil⟩

/-- The names. -/
def names (o : Fields K V) : List K := o.entries.map Prod.fst

/-- All values changed. -/
def map (f : V → W) (o : Fields K V) : Fields K W :=
  ⟨o.entries.map fun e => (e.1, f e.2), by
    rw [List.map_map]
    exact o.nodup⟩

theorem names_map (f : V → W) (o : Fields K V) : (o.map f).names = o.names := by
  unfold names map
  rw [List.map_map]
  rfl

variable [DecidableEq K]

/-- The value of a field. -/
def get (o : Fields K V) (k : K) : Option V := (o.entries.find? fun e => e.1 = k).map Prod.snd

theorem map_fst_replace (l : List (K × V)) (k : K) (v : V) :
    (l.map fun e => if e.1 = k then (k, v) else e).map Prod.fst = l.map Prod.fst := by
  rw [List.map_map]
  refine List.map_congr_left fun e _ => ?_
  rw [Function.comp_apply]
  split
  · rename_i h
    exact h.symm
  · rfl

/-- Write a field. -/
def set (o : Fields K V) (k : K) (v : V) : Fields K V :=
  if h : k ∈ o.names then ⟨o.entries.map fun e => if e.1 = k then (k, v) else e, by
    rw [map_fst_replace]
    exact o.nodup⟩
  else ⟨o.entries ++ [(k, v)], by
    rw [List.map_append]
    refine List.nodup_append.mpr ⟨o.nodup, List.nodup_singleton k, fun a ha b hb hab => h ?_⟩
    have hk : b = k := List.mem_singleton.mp hb
    rwa [← hk, ← hab]⟩

/-- Delete a field. -/
def erase (o : Fields K V) (k : K) : Fields K V :=
  ⟨o.entries.filter fun e => e.1 ≠ k, o.nodup.sublist (List.filter_sublist.map Prod.fst)⟩

/-! ## What a field holds -/

theorem get_eq_some {o : Fields K V} {k : K} {v : V} : o.get k = some v ↔ (k, v) ∈ o.entries := by
  unfold get
  rw [Option.map_eq_some_iff]
  constructor
  · rintro ⟨⟨k', v'⟩, hfind, rfl⟩
    have hk := List.find?_some hfind
    simp only [decide_eq_true_eq] at hk
    exact hk ▸ List.mem_of_find?_eq_some hfind
  · intro hmem
    obtain ⟨e, he⟩ := Option.isSome_iff_exists.mp
      (List.find?_isSome.mpr ⟨(k, v), hmem, decide_eq_true rfl⟩ : (o.entries.find? fun e => e.1 = k).isSome)
    refine ⟨e, he, ?_⟩
    have hk := List.find?_some he
    simp only [decide_eq_true_eq] at hk
    have := List.inj_on_of_nodup_map o.nodup (List.mem_of_find?_eq_some he) hmem hk
    rw [this]

theorem get_eq_none {o : Fields K V} {k : K} : o.get k = none ↔ k ∉ o.names := by
  unfold get names
  rw [Option.map_eq_none_iff, List.find?_eq_none, List.mem_map]
  constructor
  · rintro h ⟨e, he, hk⟩
    exact h e he (decide_eq_true hk)
  · exact fun h e he hk => h ⟨e, he, of_decide_eq_true hk⟩

theorem mem_names {o : Fields K V} {k : K} {v : V} (h : o.get k = some v) : k ∈ o.names := by
  by_contra hnot
  rw [get_eq_none.mpr hnot] at h
  cases h

@[simp] theorem get_empty (k : K) : (empty : Fields K V).get k = none := rfl

@[simp] theorem get_map (f : V → W) (o : Fields K V) (k : K) : (o.map f).get k = (o.get k).map f := by
  unfold get map
  rw [List.find?_map, Option.map_map, Option.map_map]
  rfl

theorem get_set_self (o : Fields K V) (k : K) (v : V) : (o.set k v).get k = some v := by
  rw [get_eq_some]
  unfold set
  split
  · rename_i h
    obtain ⟨e, he, hk⟩ := List.mem_map.mp h
    exact List.mem_map.mpr ⟨e, he, if_pos hk⟩
  · exact List.mem_append_right _ (List.mem_singleton_self _)

theorem get_set_of_ne (o : Fields K V) {k k' : K} (v : V) (h : k' ≠ k) : (o.set k v).get k' = o.get k' := by
  refine Option.ext fun w => ?_
  rw [get_eq_some, get_eq_some]
  unfold set
  split
  · rw [List.mem_map]
    constructor
    · rintro ⟨e, he, heq⟩
      split at heq
      · exact absurd (congrArg Prod.fst heq).symm h
      · exact heq ▸ he
    · exact fun he => ⟨(k', w), he, if_neg h⟩
  · rw [List.mem_append, List.mem_singleton]
    exact or_iff_left fun heq => h (congrArg Prod.fst heq)

theorem get_erase (o : Fields K V) (k k' : K) : (o.erase k).get k' = if k' = k then none else o.get k' := by
  refine Option.ext fun w => ?_
  rw [get_eq_some]
  unfold erase
  rw [List.mem_filter]
  split
  · rename_i h
    simp [h]
  · rename_i h
    rw [get_eq_some]
    simp [h]

/-! ## Names -/

theorem names_set (o : Fields K V) (k : K) (v : V) :
    (o.set k v).names = if k ∈ o.names then o.names else o.names ++ [k] := by
  unfold set
  split
  · rename_i h
    exact map_fst_replace o.entries k v
  · exact List.map_append

theorem names_set_of_get {o : Fields K V} {k : K} {w : V} (h : o.get k = some w) (v : V) :
    (o.set k v).names = o.names := by
  rw [names_set, if_pos (mem_names h)]

theorem names_erase_sublist (o : Fields K V) (k : K) : (o.erase k).names.Sublist o.names :=
  List.filter_sublist.map Prod.fst

/-- Objects with the same names in the same order, that hold the same. -/
theorem ext_get {o o' : Fields K V} (hnames : o.names = o'.names) (hget : ∀ k, o.get k = o'.get k) : o = o' := by
  have hentries : o.entries = o'.entries := by
    have hlength : o.entries.length = o'.entries.length := by
      have := congrArg List.length hnames
      unfold names at this
      rwa [List.length_map, List.length_map] at this
    refine List.ext_getElem hlength fun i hi hi' => ?_
    have hname : o.entries[i].1 = o'.entries[i].1 := by
      have := List.getElem_of_eq hnames (i := i) (by unfold names; rwa [List.length_map])
      unfold names at this
      rwa [List.getElem_map, List.getElem_map] at this
    have hmem : o.get o.entries[i].1 = some o.entries[i].2 := get_eq_some.mpr (List.getElem_mem hi)
    have hmem' : o'.get o'.entries[i].1 = some o'.entries[i].2 := get_eq_some.mpr (List.getElem_mem hi')
    rw [hget, hname, hmem'] at hmem
    exact Prod.ext hname (Option.some.inj hmem).symm
  cases o
  cases o'
  obtain rfl := hentries
  rfl

end Fields

/-! ## Loops over names -/

/-- A loop over distinct names, each pass of which touches what is at its own name only: there, it does what the pass
does. -/
theorem List.Nodup.foldl_at {K S B : Type} {ks : List K} (hks : ks.Nodup) (step : S → K → S) (at' : S → K → B)
    (hother : ∀ s k k', k' ≠ k → at' (step s k) k' = at' s k') (s : S) (k : K) :
    (k ∉ ks → at' (ks.foldl step s) k = at' s k) ∧
      (k ∈ ks → ∃ m, at' m k = at' s k ∧ at' (ks.foldl step s) k = at' (step m k) k) := by
  induction ks generalizing s with
  | nil => exact ⟨fun _ => rfl, fun h => absurd h List.not_mem_nil⟩
  | cons k₀ ks ih =>
    obtain ⟨hnot, hks⟩ := List.nodup_cons.mp hks
    obtain ⟨hout, hin⟩ := ih hks (step s k₀)
    rw [List.foldl_cons]
    constructor
    · intro hk
      rw [List.mem_cons, not_or] at hk
      rw [hout hk.2, hother s k₀ k hk.1]
    · intro hk
      rcases List.mem_cons.mp hk with rfl | hk
      · exact ⟨s, rfl, hout hnot⟩
      · obtain ⟨m, hm, hfold⟩ := hin hk
        refine ⟨m, ?_, hfold⟩
        rw [hm, hother s k₀ k fun h => hnot (h ▸ hk)]
