import Mathlib.Data.Finset.Card
import Mathlib.Data.Finset.Dedup

/-!
# The first distinct elements of a list

`collect cap l` walks over `l` and keeps the elements that it meets for the first time, until it has `cap` of them.

**`collected`** is its invariant: while there is room everything that was met is kept. So the walk is full exactly if `cap`
or more different elements are there (`capHit_iff`), and misses something exactly if more than `cap` are
(`exists_missing_iff`).
-/

namespace Distinct

variable {α : Type} [DecidableEq α] (cap : Nat)

/-- What was met, what is kept, and whether that is as much as there may be. -/
structure State (α : Type) where
  seen : Finset α
  kept : List α
  capHit : Bool

namespace State

/-- Before the walk. -/
def start : State α := ⟨∅, [], false⟩

/-- One more element; nothing changes any more when the cap was hit. -/
def add (s : State α) (a : α) : State α :=
  if s.capHit then s
  else if a ∈ s.seen then s
  else ⟨insert a s.seen, s.kept ++ [a], decide ((s.kept ++ [a]).length = cap)⟩

end State

/-- The walk. -/
def collect (l : List α) : State α := l.foldl (State.add cap) State.start

/-- What holds after a walk over `l`. -/
structure Collected (l : List α) (s : State α) : Prop where
  seen : s.seen = s.kept.toFinset
  nodup : s.kept.Nodup
  subset : ∀ a ∈ s.kept, a ∈ l
  room : s.capHit = false → s.kept.length < cap ∧ ∀ a ∈ l, a ∈ s.kept
  full : s.capHit = true → s.kept.length = cap

variable {cap}

theorem Collected.add {l : List α} {s : State α} (h : Collected cap l s) (a : α) :
    Collected cap (l ++ [a]) (s.add cap a) := by
  have hsubset : ∀ b ∈ s.kept, b ∈ l ++ [a] := fun b hb => List.mem_append_left _ (h.subset b hb)
  unfold State.add
  by_cases hfull : s.capHit
  · rw [if_pos hfull]
    exact ⟨h.seen, h.nodup, hsubset, fun hroom => absurd (hfull.symm.trans hroom) (by decide), h.full⟩
  · rw [if_neg hfull]
    obtain ⟨hlt, hall⟩ := h.room (Bool.eq_false_iff.mpr hfull)
    by_cases hseen : a ∈ s.seen
    · rw [if_pos hseen]
      have hkept : a ∈ s.kept := List.mem_toFinset.mp (h.seen ▸ hseen)
      refine ⟨h.seen, h.nodup, hsubset, fun _ => ⟨hlt, fun b hb => ?_⟩, h.full⟩
      rcases List.mem_append.mp hb with hb | hb
      · exact hall b hb
      · rwa [List.mem_singleton.mp hb]
    · rw [if_neg hseen]
      have hnew : a ∉ s.kept := fun hmem => hseen (h.seen ▸ List.mem_toFinset.mpr hmem)
      have hlength : (s.kept ++ [a]).length = s.kept.length + 1 := List.length_append
      refine ⟨?_, ?_, fun b hb => ?_, fun hroom => ?_, fun hcap => of_decide_eq_true hcap⟩
      · rw [h.seen]
        ext b
        simp
      · exact List.Nodup.append h.nodup (List.nodup_singleton a) (List.disjoint_singleton.mpr hnew)
      · rcases List.mem_append.mp hb with hb | hb
        · exact hsubset b hb
        · exact List.mem_append_right _ hb
      · have hne := of_decide_eq_false hroom
        refine ⟨by dsimp only; omega, fun b hb => ?_⟩
        rcases List.mem_append.mp hb with hb | hb
        · exact List.mem_append_left _ (hall b hb)
        · exact List.mem_append_right _ hb

/-- **The walk keeps what it meets, as long as there is room.** -/
theorem collected (hcap : 0 < cap) (l : List α) : Collected cap l (collect cap l) := by
  unfold collect
  induction l using List.reverseRecOn with
  | nil => exact ⟨rfl, List.nodup_nil, fun a ha => ha, fun _ => ⟨hcap, fun a ha => ha⟩, fun h => by cases h⟩
  | append_singleton l a ih =>
    rw [List.foldl_concat]
    exact ih.add a

section Collected

variable {l : List α} {s : State α} (h : Collected cap l s)
include h

theorem Collected.card_kept : s.kept.toFinset.card = s.kept.length := List.toFinset_card_of_nodup h.nodup

theorem Collected.toFinset_subset : s.kept.toFinset ⊆ l.toFinset := fun a ha =>
  List.mem_toFinset.mpr (h.subset a (List.mem_toFinset.mp ha))

/-- **The cap is hit exactly if there are that many different elements.** -/
theorem Collected.capHit_iff : s.capHit = true ↔ cap ≤ l.toFinset.card := by
  constructor
  · intro hfull
    rw [← h.full hfull, ← h.card_kept]
    exact Finset.card_le_card h.toFinset_subset
  · intro hle
    by_contra hroom
    obtain ⟨hlt, hall⟩ := h.room (Bool.eq_false_iff.mpr hroom)
    have hcard := Finset.card_le_card (s := l.toFinset) (t := s.kept.toFinset) fun a ha =>
      List.mem_toFinset.mpr (hall a (List.mem_toFinset.mp ha))
    rw [h.card_kept] at hcard
    omega

/-- **Something is missing exactly if there are more.** -/
theorem Collected.exists_missing_iff : (∃ a ∈ l, a ∉ s.kept) ↔ cap < l.toFinset.card := by
  constructor
  · rintro ⟨a, ha, hmissing⟩
    have hfull : s.capHit = true := by
      by_contra hroom
      exact hmissing ((h.room (Bool.eq_false_iff.mpr hroom)).2 a ha)
    rw [← h.full hfull, ← h.card_kept]
    exact Finset.card_lt_card ⟨h.toFinset_subset, fun hsub =>
      hmissing (List.mem_toFinset.mp (hsub (List.mem_toFinset.mpr ha)))⟩
  · intro hlt
    have hlength := h.full (h.capHit_iff.mpr hlt.le)
    by_contra hnone
    have hcard := Finset.card_le_card (s := l.toFinset) (t := s.kept.toFinset) fun a ha =>
      List.mem_toFinset.mpr (by
        by_contra hmissing
        exact hnone ⟨a, List.mem_toFinset.mp ha, hmissing⟩)
    rw [h.card_kept] at hcard
    omega

end Collected

end Distinct
