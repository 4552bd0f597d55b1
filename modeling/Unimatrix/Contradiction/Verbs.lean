import Unimatrix.Contradiction.Directives

/-!
# What the directive expression captures

`isVerb_of_mem`: what the verb group takes is one of its verbs. `head_directive`, `object_captures`: a directive is a verb
with an object behind it, and the groups hold the two. At a negative phrase of one word, and at `do not`, the verb group
has one result; at `should` and `must` it has a second one behind `not`, which is never preferred (**`head_modal`**).
-/

namespace Unimatrix.Contradiction

open Regex TopicSignal

/-! ## Letters -/

theorem toLower_ascii {c : Char} (h : c.toLower.toNat < 128) : c.toNat < 128 := by
  unfold Char.toLower at h
  split at h
  · rename_i hc
    have := hc.2
    change c.toNat ≤ 90 at this
    omega
  · exact h

theorem fold_eq_toLower {c : Char} (h : c.toNat < 128) : fold c = c.toLower := by
  unfold fold
  rw [if_neg, if_neg]
  · rintro rfl
    exact absurd h (by decide)
  · rintro rfl
    exact absurd h (by decide)

theorem toLower_space {c : Char} (h : isRustWhitespace c) : c.toLower = c := by
  unfold Char.toLower
  rw [dif_neg]
  intro hc
  have h1 : 65 ≤ c.toNat := hc.1
  have h2 : c.toNat ≤ 90 := hc.2
  simp only [isRustWhitespace, isCommonWhitespace, Bool.or_eq_true, Bool.and_eq_true, decide_eq_true_eq,
    beq_iff_eq] at h
  omega

theorem fold_space {c : Char} (h : isRustWhitespace c) : fold c = c := by
  unfold fold
  rw [if_neg, if_neg, toLower_space h]
  · rintro rfl
    exact absurd h (by decide)
  · rintro rfl
    exact absurd h (by decide)

theorem map_fold_space {l : Str} (h : ∀ c ∈ l, isRustWhitespace c) : l.map fold = l :=
  (List.map_congr_left fun c hc => fold_space (h c hc)).trans (List.map_id' l)

theorem map_toLower_space {l : Str} (h : ∀ c ∈ l, isRustWhitespace c) : l.map Char.toLower = l :=
  (List.map_congr_left fun c hc => toLower_space (h c hc)).trans (List.map_id' l)

/-- How a word is spelled: its letters in any case. -/
theorem map_fold_of_lower {v : Str} {w : String} (hw : ∀ c ∈ w.toList, c.toNat < 128)
    (h : v.map Char.toLower = w.toList) : v.map fold = w.toList ∧ ∀ c ∈ v, c.toNat < 128 := by
  have hascii : ∀ c ∈ v, c.toNat < 128 := fun c hc =>
    toLower_ascii (hw _ (by rw [← h]; exact List.mem_map_of_mem hc))
  refine ⟨?_, hascii⟩
  rw [← h]
  exact List.map_congr_left fun c hc => fold_eq_toLower (hascii c hc)

/-! ## Verbs -/

theorem results_keyword (w : String) (s : State Char) :
    results (keyword w) s = if w.toList <+: s.rest.map fold then [s.skip w.toList.length] else [] :=
  results_word fold w.toList s

/-- A word of the expression does not begin with whitespace. -/
theorem results_keyword_space {w : String} (hw : w.toList.head?.any fun c => !isRustWhitespace c) {t : State Char}
    (ht : t.rest.head?.any isRustWhitespace) : results (keyword w) t = [] := by
  rw [results_keyword, if_neg]
  obtain ⟨before, rest, groups⟩ := t
  cases rest with
  | nil => simp at ht
  | cons c rest =>
    cases hl : w.toList with
    | nil => simp [hl] at hw
    | cons l ls =>
      rw [List.map_cons, fold_space ht, List.cons_prefix_cons]
      rintro ⟨rfl, -⟩
      rw [hl] at hw
      simp_all

theorem keywords_nil {a b : String} {s : State Char} (h : ¬ a.toList <+: s.rest.map fold) :
    results (keywords a b) s = [] := by
  rw [keywords, results, results_keyword, if_neg h]
  rfl

theorem results_keywords {a b : String} (hb : b.toList.head?.any fun c => !isRustWhitespace c) (s : State Char) :
    results (keywords a b) s = if a.toList <+: s.rest.map fold then
      let t := s.skip a.toList.length
      if t.rest.head?.any isRustWhitespace then results (keyword b) (t.skip (run isRustWhitespace t)) else []
      else [] := by
  have hseq : results (keywords a b) s =
      (results (keyword a) s).flatMap (results (.seq (plus isRustWhitespace) (keyword b))) := rfl
  rw [hseq, results_keyword]
  split
  · rw [List.flatMap_singleton, results_plus_seq fun t ht => results_keyword_space hb ht]
  · rfl

/-- The verbs of one word. -/
def singles : List String :=
  ["use", "always", "prefer", "should", "must", "enable", "avoid", "never", "don't", "disable"]

/-- The verbs that `not` may follow. -/
def modals : List String := ["do", "should", "must"]

/-- A text that the expression takes for a verb. -/
def IsVerb (v : Str) : Prop :=
  (∃ w ∈ singles, v.map fold = w.toList) ∨
    ∃ w ∈ modals, ∃ inner : Str, inner ≠ [] ∧ (∀ c ∈ inner, isRustWhitespace c) ∧
      v.map fold = w.toList ++ inner ++ "not".toList

theorem mem_verbs {a : Expr Char} (h : a ∈ verbs) :
    (∃ w ∈ singles, a = keyword w) ∨ ∃ w ∈ modals, a = keywords w "not" := by
  simp only [verbs, List.mem_cons, List.not_mem_nil, or_false] at h
  simp only [singles, modals, List.mem_cons, List.not_mem_nil, or_false]
  grind

theorem mem_keyword {w : String} {s t : State Char} (h : t ∈ results (keyword w) s) :
    w.toList <+: s.rest.map fold ∧ t = s.skip w.toList.length := by
  rw [results_keyword] at h
  split at h
  · exact ⟨‹_›, List.mem_singleton.mp h⟩
  · cases h

theorem length_le_of_keyword {w : String} {s : State Char} (h : w.toList <+: s.rest.map fold) :
    w.toList.length ≤ s.rest.length := by
  simpa using h.length_le

theorem map_take_of_keyword {w : String} {s : State Char} (h : w.toList <+: s.rest.map fold) :
    (s.rest.take w.toList.length).map fold = w.toList := by
  rw [List.map_take]
  exact (List.prefix_iff_eq_take.mp h).symm

/-- **What the verb group takes is a verb.** -/
theorem isVerb_of_mem {s t : State Char} (h : t ∈ results (oneOf verbs) s) :
    ∃ n, n ≤ s.rest.length ∧ t = s.skip n ∧ IsVerb (s.rest.take n) := by
  rw [results_oneOf, List.mem_flatMap] at h
  obtain ⟨a, ha, ht⟩ := h
  rcases mem_verbs ha with ⟨w, hw, rfl⟩ | ⟨w, hw, rfl⟩
  · obtain ⟨hstarts, rfl⟩ := mem_keyword ht
    exact ⟨_, length_le_of_keyword hstarts, rfl, .inl ⟨w, hw, map_take_of_keyword hstarts⟩⟩
  · rw [results_keywords (by decide)] at ht
    split at ht
    · rename_i hfirst
      dsimp only at ht
      split at ht
      · rename_i hspace
        obtain ⟨hsecond, rfl⟩ := mem_keyword ht
        have hlen₁ := length_le_of_keyword hfirst
        have hlen₂ := length_le_of_keyword hsecond
        have hlen := run_le isRustWhitespace (s.skip w.toList.length)
        simp only [State.skip_rest, List.length_drop] at hlen hlen₂
        refine ⟨w.toList.length + (run isRustWhitespace (s.skip w.toList.length) + "not".toList.length), by omega,
          by rw [State.skip_skip, State.skip_skip], .inr ⟨w, hw,
            (s.skip w.toList.length).rest.takeWhile isRustWhitespace, takeWhile_ne_nil hspace,
            fun c => List.mem_takeWhile_imp, ?_⟩⟩
        have hinner : ((s.skip w.toList.length).rest.takeWhile isRustWhitespace).map fold =
            (s.skip w.toList.length).rest.takeWhile isRustWhitespace :=
          map_fold_space fun c => List.mem_takeWhile_imp
        rw [List.take_add, List.take_add, List.map_append, List.map_append, map_take_of_keyword hfirst, ← State.skip_rest,
          take_run, hinner, ← State.skip_rest, map_take_of_keyword hsecond, List.append_assoc]
      · cases ht
    · cases ht

/-! ## Objects -/

section Object

variable {u : Unicode}

theorem results_object (t : State Char) :
    results (object u) t = if t.rest.head?.any isRustWhitespace then
      results (.group 2 (subject u)) (t.skip (run isRustWhitespace t)) else [] := by
  refine results_plus_seq (fun t ht => ?_) t
  obtain ⟨before, rest, groups⟩ := t
  cases rest with
  | nil => rfl
  | cons c rest => simp [results, subject, u.word_space c ht]

/-- Behind whitespace and a word character there is an object. -/
theorem object_ne_nil {t : State Char} (hspace : t.rest.head?.any isRustWhitespace)
    (hword : (t.skip (run isRustWhitespace t)).rest.head?.any u.isWord) : results (object u) t ≠ [] := by
  rw [results_object, if_pos hspace]
  generalize t.skip (run isRustWhitespace t) = t' at hword ⊢
  obtain ⟨before, rest, groups⟩ := t'
  cases rest with
  | nil => simp at hword
  | cons c rest =>
    have hc : u.isWord c := hword
    obtain ⟨shorter, heq, -⟩ := repeats_eq (fun c => u.isWord c || isRustWhitespace c || c == '-') groups (c :: before) rest
    simp [results, subject, hc, State.skip, heq]

/-- The object is recorded where it begins. -/
theorem mem_object {r t : State Char} (h : r ∈ results (object u) t) :
    t.rest.head?.any isRustWhitespace ∧
      ∃ text, r.groups = ⟨2, t.pos + run isRustWhitespace t, text⟩ :: t.groups := by
  rw [results_object] at h
  split at h
  · rename_i hspace
    refine ⟨hspace, ?_⟩
    rw [results, List.mem_map] at h
    obtain ⟨t', ht', rfl⟩ := h
    have hgroups : t'.groups = t.groups := by
      rw [subject, results, List.mem_flatMap] at ht'
      obtain ⟨t₁, h₁, ht'⟩ := ht'
      have hone : t₁.groups = t.groups := by
        rw [results] at h₁
        split at h₁
        · cases h₁
        · split at h₁
          · rw [List.mem_singleton.mp h₁]
            rfl
          · cases h₁
      exact (repeats_groups ht').trans hone
    simp only [State.record_groups, hgroups, State.pos_skip _ (run_le _ _)]
    exact ⟨_, rfl⟩
  · cases h

/-- A directive is a verb with an object behind it. -/
theorem head_directive {s r : State Char} (h : (results (directiveRegex u) s).head? = some r) :
    ((results (oneOf verbs) s).flatMap fun t =>
      results (object u) (t.record ⟨1, s.pos, s.rest.take (t.pos - s.pos)⟩)).head? = some r := by
  have hseq : results (directiveRegex u) s =
      (results (.boundary u.isWord) s).flatMap fun s =>
        ((results (oneOf verbs) s).map fun t => t.record ⟨1, s.pos, s.rest.take (t.pos - s.pos)⟩).flatMap
          (results (object u)) := rfl
  rw [hseq, results] at h
  split at h
  · cases h
  · rw [List.flatMap_singleton, List.flatMap_map] at h
    exact h

theorem boundary_of_head {s r : State Char} (h : (results (directiveRegex u) s).head? = some r) :
    s.before.head?.any u.isWord ≠ s.rest.head?.any u.isWord := by
  intro heq
  have hnil : results (directiveRegex u) s = [] := by
    rw [directiveRegex, results, results, if_pos heq]
    rfl
  rw [hnil] at h
  cases h

theorem isWord_of_fold {c l : Char} (hl : l.isAlphanum) (hascii : l.toNat < 128) (h : fold c = l) : u.isWord c := by
  rw [← u.word_fold, h, u.word_ascii l hascii, hl]
  rfl

theorem head_word_of_not {rest : Str} (h : "not".toList <+: rest.map fold) : rest.head?.any u.isWord := by
  obtain ⟨x, hx⟩ := h
  cases rest with
  | nil => cases hx
  | cons c rest => exact isWord_of_fold (l := 'n') (by decide) (by decide) (List.cons.inj hx).1.symm

/-- **Behind `should` or `must` the alternative without `not` goes through first.** -/
theorem head_modal {w : String} {s r : State Char}
    (hverbs : results (oneOf verbs) s = s.skip w.toList.length :: results (keywords w "not") s)
    (h : (results (directiveRegex u) s).head? = some r) :
    r ∈ results (object u) ((s.skip w.toList.length).record
      ⟨1, s.pos, s.rest.take ((s.skip w.toList.length).pos - s.pos)⟩) := by
  have hhead := head_directive h
  rw [hverbs, List.flatMap_cons, List.head?_append] at hhead
  rcases Option.or_eq_some_iff.mp hhead with hhead | ⟨hnone, hhead⟩
  · exact List.mem_of_head? hhead
  · -- `not` would be an object of the verb alone
    exfalso
    have hnil := List.head?_eq_none_iff.mp hnone
    obtain ⟨t, ht, -⟩ := List.mem_flatMap.mp (List.mem_of_head? hhead)
    rw [results_keywords (by decide)] at ht
    split at ht
    · dsimp only at ht
      split at ht
      · rename_i hspace
        obtain ⟨hnot, -⟩ := mem_keyword ht
        exact object_ne_nil (t := (s.skip w.toList.length).record _) hspace (head_word_of_not hnot) hnil
      · cases ht
    · cases ht

/-- What the groups of a directive hold. -/
theorem object_captures {s r : State Char} (hs : s.groups = []) {n : Nat} (hn : n ≤ s.rest.length)
    (h : r ∈ results (object u) ((s.skip n).record ⟨1, s.pos, s.rest.take ((s.skip n).pos - s.pos)⟩)) :
    r.capture 1 = some ⟨1, s.pos, s.rest.take n⟩ ∧ ∃ c, r.capture 2 = some c ∧ s.pos + n ≤ c.start := by
  obtain ⟨-, text, hgroups⟩ := mem_object h
  have hpos := s.pos_skip hn
  rw [State.record_groups, State.skip_groups, hs, State.record_pos, hpos, Nat.add_sub_cancel_left] at hgroups
  simp only [State.capture, hgroups]
  exact ⟨rfl, _, rfl, Nat.le_add_right _ _⟩

end Object

/-! ## The verb at a place -/

section Verbs

theorem head_fold {rest x : Str} {l : Char} (h : rest.map fold = l :: x) (hl : isRustWhitespace l = false) :
    rest.head?.any isRustWhitespace = false := by
  cases rest with
  | nil => rfl
  | cons c rest =>
    rw [List.head?_cons, Option.any_some, Bool.eq_false_iff]
    intro hc
    rw [List.map_cons, fold_space hc] at h
    rw [(List.cons.inj h).1] at hc
    exact absurd hc (by simp [hl])

variable {s : State Char} {x : Str}

theorem verbs_should (h : s.rest.map fold = "should".toList ++ x) :
    results (oneOf verbs) s = s.skip "should".toList.length :: results (keywords "should" "not") s := by
  simp [results_oneOf, verbs, results_keyword, keywords_nil, h]

theorem verbs_must (h : s.rest.map fold = "must".toList ++ x) :
    results (oneOf verbs) s = s.skip "must".toList.length :: results (keywords "must" "not") s := by
  simp [results_oneOf, verbs, results_keyword, keywords_nil, h]

theorem verbs_avoid (h : s.rest.map fold = "avoid".toList ++ x) :
    results (oneOf verbs) s = [s.skip "avoid".toList.length] := by
  simp [results_oneOf, verbs, results_keyword, keywords_nil, h]

theorem verbs_never (h : s.rest.map fold = "never".toList ++ x) :
    results (oneOf verbs) s = [s.skip "never".toList.length] := by
  simp [results_oneOf, verbs, results_keyword, keywords_nil, h]

theorem verbs_disable (h : s.rest.map fold = "disable".toList ++ x) :
    results (oneOf verbs) s = [s.skip "disable".toList.length] := by
  simp [results_oneOf, verbs, results_keyword, keywords_nil, h]

/-- `do` has no whitespace behind it here. -/
theorem verbs_dont (h : s.rest.map fold = "don't".toList ++ x) :
    results (oneOf verbs) s = [s.skip "don't".toList.length] := by
  have hdo : results (keywords "do" "not") s = [] := by
    have hrest : (s.skip "do".toList.length).rest.map fold = 'n' :: ("'t".toList ++ x) := by
      rw [State.skip_rest, List.map_drop, h]
      rfl
    rw [results_keywords (by decide)]
    simp only [head_fold hrest (by decide)]
    simp
  simp [results_oneOf, verbs, results_keyword, keywords_nil, h, hdo]

/-- `do\s+not` takes the whitespace as it stands. -/
theorem verbs_doNot {first inner rest : Str} (hs : s.rest = first ++ (inner ++ rest))
    (hfirst : first.map fold = "do".toList) (hne : inner ≠ []) (hinner : ∀ c ∈ inner, isRustWhitespace c)
    (hrest : rest.map fold = "not".toList ++ x) :
    results (oneOf verbs) s = [s.skip ("do".toList.length + inner.length + "not".toList.length)] := by
  have hlen : first.length = "do".toList.length := by rw [← hfirst, List.length_map]
  have hskip : (s.skip "do".toList.length).rest = inner ++ rest := by
    rw [State.skip_rest, hs, ← hlen, List.drop_left]
  have hrun : run isRustWhitespace (s.skip "do".toList.length) = inner.length :=
    run_append hskip hinner (head_fold hrest (by decide))
  have hnot : ((s.skip "do".toList.length).skip inner.length).rest = rest := by
    rw [State.skip_rest, hskip, List.drop_left]
  obtain ⟨c, inner', rfl⟩ := List.exists_cons_of_ne_nil hne
  have hc := hinner c List.mem_cons_self
  have hn : c ≠ 'n' := by
    rintro rfl
    exact absurd hc (by decide)
  have h : s.rest.map fold = 'd' :: 'o' :: c :: (inner'.map fold ++ rest.map fold) := by
    rw [hs, List.map_append, hfirst, List.map_append, List.map_cons, fold_space hc]
    rfl
  have hdo : results (keywords "do" "not") s =
      [s.skip ("do".toList.length + (c :: inner').length + "not".toList.length)] := by
    have hspace : (s.skip "do".toList.length).rest.head?.any isRustWhitespace := by
      rw [hskip]
      exact hc
    rw [results_keywords (by decide), if_pos ⟨_, h.symm⟩]
    dsimp only
    rw [if_pos hspace, hrun, results_keyword, hnot, if_pos ⟨_, hrest.symm⟩, State.skip_skip, State.skip_skip,
      Nat.add_assoc]
  simp [results_oneOf, verbs, results_keyword, keywords_nil, h, hdo, hn.symm]

end Verbs

end Unimatrix.Contradiction
