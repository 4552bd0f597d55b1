import Mathlib.Data.List.Induction
import Mathlib.Data.List.Nodup

/-!
# Scans that skip what they have seen

A scan goes over a list of visits and acts on a visit if nothing with its key has been seen before. If what an action
finds depends on the key alone, as far as a `view` shows it, the views found are those of all visits
(**`mem_found_view`**): which visit came first does not show. What is found has distinct keys (`found_nodup`).
-/

namespace SeenScan

variable {α κ β γ : Type} [DecidableEq κ]

/-- The keys seen, and what was found. -/
structure State (κ β : Type) where
  seen : List κ
  found : List β

/-- One visit. -/
def visit (key : α → κ) (emit : α → Option β) (st : State κ β) (a : α) : State κ β :=
  if key a ∈ st.seen then st else ⟨key a :: st.seen, st.found ++ (emit a).toList⟩

/-- The scan. -/
def scan (key : α → κ) (emit : α → Option β) (l : List α) : State κ β := l.foldl (visit key emit) ⟨[], []⟩

variable {key : α → κ} {emit : α → Option β}

theorem scan_concat (l : List α) (a : α) : scan key emit (l ++ [a]) = visit key emit (scan key emit l) a := by
  rw [scan, List.foldl_append]
  rfl

theorem mem_seen {l : List α} {k : κ} : k ∈ (scan key emit l).seen ↔ ∃ a ∈ l, key a = k := by
  induction l using List.reverseRecOn generalizing k with
  | nil => simp [scan]
  | append_singleton l a ih =>
    rw [scan_concat, visit]
    split
    · rename_i ha
      rw [ih]
      constructor
      · rintro ⟨b, hb, rfl⟩
        exact ⟨b, List.mem_append_left _ hb, rfl⟩
      · rintro ⟨b, hb, rfl⟩
        rcases List.mem_append.mp hb with hb | hb
        · exact ⟨b, hb, rfl⟩
        · rw [List.mem_singleton.mp hb]
          exact ih.mp ha
    · simp only [List.mem_cons, ih, List.mem_append, List.not_mem_nil, or_false]
      constructor
      · rintro (rfl | ⟨b, hb, rfl⟩)
        · exact ⟨a, .inr rfl, rfl⟩
        · exact ⟨b, .inl hb, rfl⟩
      · rintro ⟨b, hb | rfl, rfl⟩
        · exact .inr ⟨b, hb, rfl⟩
        · exact .inl rfl

/-- What is found comes from a visit. -/
theorem exists_of_mem_found {l : List α} {b : β} (h : b ∈ (scan key emit l).found) : ∃ a ∈ l, emit a = some b := by
  induction l using List.reverseRecOn with
  | nil => cases h
  | append_singleton l a ih =>
    rw [scan_concat, visit] at h
    have hold : b ∈ (scan key emit l).found → ∃ a' ∈ l ++ [a], emit a' = some b := by
      intro hb
      obtain ⟨a', ha', hemit⟩ := ih hb
      exact ⟨a', List.mem_append_left _ ha', hemit⟩
    split at h
    · exact hold h
    · rcases List.mem_append.mp h with h | h
      · exact hold h
      · exact ⟨a, by simp, Option.mem_toList.mp h⟩

/-- **If the view depends on the key alone, the views found are those of all visits.** -/
theorem mem_found_view {view : β → γ} {l : List α}
    (hkey : ∀ a ∈ l, ∀ a' ∈ l, key a = key a' → (emit a).map view = (emit a').map view) {v : γ} :
    v ∈ (scan key emit l).found.map view ↔ ∃ a ∈ l, (emit a).map view = some v := by
  constructor
  · intro h
    obtain ⟨b, hb, rfl⟩ := List.mem_map.mp h
    obtain ⟨a, ha, hemit⟩ := exists_of_mem_found hb
    exact ⟨a, ha, by rw [hemit]; rfl⟩
  · induction l using List.reverseRecOn with
    | nil => rintro ⟨a, ha, -⟩; cases ha
    | append_singleton l a ih =>
      have ih := ih fun b hb b' hb' => hkey b (List.mem_append_left _ hb) b' (List.mem_append_left _ hb')
      rw [scan_concat, visit]
      rintro ⟨b, hb, hv⟩
      split
      · rename_i hseen
        rcases List.mem_append.mp hb with hb | hb
        · exact ih ⟨b, hb, hv⟩
        · -- an earlier visit of the same key has found it
          rw [List.mem_singleton.mp hb] at hv
          obtain ⟨a', ha', hka⟩ := mem_seen.mp hseen
          refine ih ⟨a', ha', ?_⟩
          rw [hkey a' (List.mem_append_left _ ha') a (by simp) hka, hv]
      · rw [List.map_append, List.mem_append]
        rcases List.mem_append.mp hb with hb | hb
        · exact .inl (ih ⟨b, hb, hv⟩)
        · rw [List.mem_singleton.mp hb] at hv
          obtain ⟨c, hc, rfl⟩ := Option.map_eq_some_iff.mp hv
          exact .inr (List.mem_map.mpr ⟨c, by rw [hc]; exact List.mem_singleton_self c, rfl⟩)

/-- What is found has distinct keys. -/
theorem found_nodup {keyOf : β → κ} (hkey : ∀ a b, emit a = some b → keyOf b = key a) (l : List α) :
    ((scan key emit l).found.map keyOf).Nodup := by
  induction l using List.reverseRecOn with
  | nil => exact List.nodup_nil
  | append_singleton l a ih =>
    rw [scan_concat, visit]
    split
    · exact ih
    · rename_i hseen
      cases hemit : emit a with
      | none => simpa using ih
      | some b =>
        rw [Option.toList_some, List.map_append, List.map_singleton, ← List.concat_eq_append, List.nodup_concat]
        refine ⟨fun hb => hseen ?_, ih⟩
        obtain ⟨c, hc, hck⟩ := List.mem_map.mp hb
        obtain ⟨a', ha', hemit'⟩ := exists_of_mem_found hc
        exact mem_seen.mpr ⟨a', ha', by rw [← hkey a' c hemit', hck, hkey a b hemit]⟩

end SeenScan
