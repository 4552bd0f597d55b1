import Mathlib.Data.List.Basic
import Mathlib.Data.List.Nodup

/-!
# A table as the list of its rows

The rows of a table with a unique key, oldest first. The key is not built into the type: `INSERT OR IGNORE`
(`insertOrIgnore`) looks for a row with the key and adds none where there is one, so that the keys stay
distinct is a theorem (`keys_nodup_insertOrIgnore`) and not a matter of the representation.

* `mem_insertOrIgnore`, `mem_delete`: the rows after an insertion, and after a deletion.
* `mem_keys_insertOrIgnore`: the keys after an insertion.
-/

namespace Rows

variable {K V : Type}

/-- The keys of the rows. -/
def keys (t : List (K × V)) : List K := t.map Prod.fst

theorem mem_keys {t : List (K × V)} {k : K} : k ∈ keys t ↔ ∃ v, (k, v) ∈ t := by
  unfold keys
  rw [List.mem_map]
  constructor
  · rintro ⟨⟨k', v⟩, h, rfl⟩
    exact ⟨v, h⟩
  · rintro ⟨v, h⟩
    exact ⟨(k, v), h, rfl⟩

/-- `DELETE`: the rows that do not satisfy `p`. -/
def delete (t : List (K × V)) (p : K × V → Bool) : List (K × V) := t.filter fun r => !p r

theorem mem_delete {t : List (K × V)} {p : K × V → Bool} {r : K × V} :
    r ∈ delete t p ↔ r ∈ t ∧ p r = false := by
  unfold delete
  rw [List.mem_filter, Bool.not_eq_true']

theorem keys_nodup_delete {t : List (K × V)} (h : (keys t).Nodup) (p : K × V → Bool) :
    (keys (delete t p)).Nodup :=
  h.sublist (List.filter_sublist.map Prod.fst)

variable [DecidableEq K]

/-- `INSERT OR IGNORE`. -/
def insertOrIgnore (t : List (K × V)) (k : K) (v : V) : List (K × V) :=
  if k ∈ keys t then t else t ++ [(k, v)]

/-- A row after an insertion is a row before it, or the new one. -/
theorem mem_insertOrIgnore {t : List (K × V)} {k : K} {v : V} {r : K × V} :
    r ∈ insertOrIgnore t k v ↔ r ∈ t ∨ (k ∉ keys t ∧ r = (k, v)) := by
  unfold insertOrIgnore
  split
  · rename_i h
    exact ⟨Or.inl, fun hr => hr.resolve_right fun hn => hn.1 h⟩
  · rename_i h
    rw [List.mem_append, List.mem_singleton, and_iff_right h]

theorem mem_keys_insertOrIgnore {t : List (K × V)} {k k' : K} {v : V} :
    k' ∈ keys (insertOrIgnore t k v) ↔ k' ∈ keys t ∨ k' = k := by
  unfold insertOrIgnore
  split
  · rename_i h
    constructor
    · exact Or.inl
    · rintro (hk | rfl)
      · exact hk
      · exact h
  · unfold keys
    rw [List.map_append, List.mem_append, List.map_singleton, List.mem_singleton]

theorem keys_nodup_insertOrIgnore {t : List (K × V)} (h : (keys t).Nodup) (k : K) (v : V) :
    (keys (insertOrIgnore t k v)).Nodup := by
  unfold insertOrIgnore
  split
  · exact h
  · rename_i hk
    unfold keys at h hk ⊢
    rw [List.map_append, List.map_singleton]
    refine List.nodup_append.mpr ⟨h, List.nodup_singleton k, fun a ha b hb hab => ?_⟩
    rw [List.mem_singleton] at hb
    rw [hab, hb] at ha
    exact hk ha

end Rows
