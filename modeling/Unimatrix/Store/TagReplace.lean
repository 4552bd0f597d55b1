import Unimatrix.Store.Lineage
import Unimatrix.Store.Write
import Mathlib.Data.List.Infix
import Mathlib.Data.List.TakeWhile
import Mathlib.Tactic.Push

/-!
# Replacing the tag of a namespace

`replace_tag` finds the tags of a namespace with `tag LIKE '<namespace>:%' ESCAPE '\'`, the namespace
passed through `like_escape`. A pattern that SQLite finds too long is a statement that fails.

* **`inNamespace_iff`**: the escaped pattern matches its characters and nothing else, but a letter matches
  in both cases (`Spelled`). SQLite reads both operands up to a NUL.
* `mem_of_run_replaceTagBody`: what the transaction leaves.
* **`replaceTag_exact_iff`**: exactly when the tags of the namespace are replaced, by their literal text
  (`Exact`). A tag whose namespace differs in the case of a letter is lost (`replaceTag_takes_other_case`).
-/

namespace Unimatrix

open Txn

namespace Store

/-! ## The pattern -/

/-- A character as `like_escape` writes it. -/
def escChar (c : Char) : List Char := if c = '\\' ∨ c = '%' ∨ c = '_' then ['\\', c] else [c]

theorem likeEscape_toList (s : String) : (likeEscape s).toList = s.toList.flatMap escChar := by
  unfold likeEscape replaceChar
  rw [String.toList_ofList, List.flatMap_assoc, List.flatMap_assoc]
  congr 1
  funext c
  unfold escChar
  by_cases hb : c = '\\'
  · subst hb
    rfl
  · by_cases hp : c = '%'
    · subst hp
      rfl
    · by_cases hu : c = '_'
      · subst hu
        rfl
      · simp [hb, hp, hu]

/-- Texts compared without the case of ASCII letters. -/
def fold (text : List Char) : List Char := text.map Char.toLower

/-- An escaped character takes one character, itself in either case. -/
theorem like_escChar (c : Char) (pattern text : List Char) :
    like (escChar c ++ pattern) text = true ↔
      ∃ d rest, text = d :: rest ∧ d.toLower = c.toLower ∧ like pattern rest = true := by
  have hstep : like (escChar c ++ pattern) [] = false ∧
      ∀ d rest, like (escChar c ++ pattern) (d :: rest) = (c.toLower == d.toLower && like pattern rest) := by
    unfold escChar
    by_cases h : c = '\\' ∨ c = '%' ∨ c = '_'
    · rw [if_pos h]
      exact ⟨by simp [like], fun d rest => by simp [like]⟩
    · rw [if_neg h]
      rw [not_or, not_or] at h
      obtain ⟨hb, hp, hu⟩ := h
      exact ⟨by simp [like, hb], fun d rest => by simp [like, hb]⟩
  cases text with
  | nil => simp [hstep.1]
  | cons d rest =>
    rw [hstep.2, Bool.and_eq_true, beq_iff_eq]
    constructor
    · rintro ⟨hc, hrest⟩
      exact ⟨d, rest, rfl, hc.symm, hrest⟩
    · rintro ⟨d', rest', heq, hc, hrest⟩
      cases heq
      exact ⟨hc.symm, hrest⟩

/-- **Escaped text matches itself, without case, and nothing else.** -/
theorem like_escaped (a pattern text : List Char) :
    like (a.flatMap escChar ++ pattern) text = true ↔
      ∃ x y, text = x ++ y ∧ fold x = fold a ∧ like pattern y = true := by
  induction a generalizing text with
  | nil =>
    constructor
    · exact fun h => ⟨[], text, rfl, rfl, h⟩
    · rintro ⟨x, y, rfl, hx, h⟩
      rw [List.map_eq_nil_iff.mp hx]
      exact h
  | cons c a ih =>
    rw [List.flatMap_cons, List.append_assoc, like_escChar]
    constructor
    · rintro ⟨d, rest, rfl, hd, hrest⟩
      obtain ⟨x, y, rfl, hx, hy⟩ := (ih rest).mp hrest
      refine ⟨d :: x, y, rfl, ?_, hy⟩
      unfold fold at hx ⊢
      rw [List.map_cons, List.map_cons, hd, hx]
    · rintro ⟨x, y, rfl, hx, hy⟩
      cases x with
      | nil => cases hx
      | cons d x =>
        unfold fold at hx
        rw [List.map_cons, List.map_cons, List.cons.injEq] at hx
        exact ⟨d, x ++ y, rfl, hx.1, (ih _).mpr ⟨x, y, rfl, hx.2, hy⟩⟩

theorem like_percent (text : List Char) : like ['%'] text = true := by
  unfold like
  exact List.any_eq_true.mpr ⟨[], (List.mem_tails _ _).mpr List.nil_suffix, rfl⟩

theorem fold_prefix_iff {a text : List Char} :
    fold a <+: fold text ↔ ∃ x y, text = x ++ y ∧ fold x = fold a := by
  constructor
  · rintro ⟨rest, h⟩
    obtain ⟨x, y, htext, hx, -⟩ := List.map_eq_append_iff.mp h.symm
    exact ⟨x, y, htext, hx⟩
  · rintro ⟨x, y, rfl, hx⟩
    refine ⟨fold y, ?_⟩
    unfold fold at hx ⊢
    rw [List.map_append, hx]

/-! ## Texts with a NUL -/

/-- No character is NUL. -/
def NulFree (text : List Char) : Prop := ∀ c ∈ text, c.toNat ≠ 0

instance instDecidableNulFree (text : List Char) : Decidable (NulFree text) :=
  List.decidableBAll (fun c : Char => c.toNat ≠ 0) text

/-- The characters before the first NUL. -/
def upToNul (text : List Char) : List Char := text.takeWhile fun c => c.toNat ≠ 0

theorem likeText_eq (s : String) : likeText s = upToNul s.toList := rfl

theorem NulFree.upToNul_append {a : List Char} (h : NulFree a) (b : List Char) :
    upToNul (a ++ b) = a ++ upToNul b :=
  List.takeWhile_append_of_pos fun c hc => decide_eq_true (h c hc)

theorem upToNul_append_of_nul {a : List Char} (h : ¬ NulFree a) (b : List Char) :
    upToNul (a ++ b) = upToNul a := by
  unfold NulFree at h
  push Not at h
  obtain ⟨c, hc, hnul⟩ := h
  induction a with
  | nil => cases hc
  | cons d a ih =>
    unfold upToNul at ih ⊢
    rw [List.cons_append, List.takeWhile_cons, List.takeWhile_cons]
    by_cases hd : d.toNat = 0
    · simp [hd]
    · rcases List.mem_cons.mp hc with rfl | hc
      · exact absurd hnul hd
      · rw [ih hc]

theorem NulFree.flatMap_escChar {a : List Char} (h : NulFree a) : NulFree (a.flatMap escChar) := by
  intro c hc
  obtain ⟨d, hd, hmem⟩ := List.mem_flatMap.mp hc
  unfold escChar at hmem
  split at hmem
  · rcases List.mem_cons.mp hmem with rfl | hmem
    · decide
    · rw [List.mem_singleton.mp hmem]
      exact h d hd
  · rw [List.mem_singleton.mp hmem]
    exact h d hd

/-- A NUL is not escaped: what comes before it is escaped as it would be on its own. -/
theorem upToNul_flatMap_escChar (a : List Char) :
    upToNul (a.flatMap escChar) = (upToNul a).flatMap escChar := by
  induction a with
  | nil => rfl
  | cons c a ih =>
    by_cases hc : c.toNat = 0
    · have hesc : escChar c = [c] := by
        unfold escChar
        rw [if_neg]
        rintro (rfl | rfl | rfl) <;> exact absurd hc (by decide)
      rw [List.flatMap_cons, hesc]
      unfold upToNul
      simp [hc]
    · have hone : NulFree [c] := fun d hd => by
        rw [List.mem_singleton.mp hd]
        exact hc
      have hfree : NulFree (escChar c) := by
        have h := hone.flatMap_escChar
        rwa [List.flatMap_singleton] at h
      have hhead : upToNul (c :: a) = c :: upToNul a := hone.upToNul_append a
      rw [List.flatMap_cons, hfree.upToNul_append, ih, hhead, List.flatMap_cons]

/-- What the pattern of a namespace matches. At a NUL in the namespace the pattern ends, before its `%`. -/
def Spelled (ns tag : String) : Prop :=
  if NulFree ns.toList then fold (ns.toList ++ [':']) <+: fold (upToNul tag.toList)
  else fold (upToNul tag.toList) = fold (upToNul ns.toList)

/-- **The `WHERE` clause of `replace_tag`.** -/
theorem inNamespace_iff {entryId : Nat} {ns : String} {t : Nat × String} :
    inNamespace entryId ns t = true ↔ t.1 = entryId ∧ Spelled ns t.2 := by
  have hpattern : (likeEscape ns ++ ":%").toList = ns.toList.flatMap escChar ++ [':', '%'] := by
    rw [String.toList_append, likeEscape_toList]
    rfl
  unfold inNamespace Spelled
  rw [Bool.and_eq_true, decide_eq_true_eq, likeText_eq, likeText_eq, hpattern]
  refine and_congr_right fun _ => ?_
  by_cases h : NulFree ns.toList
  · have htail : NulFree [':', '%'] := by decide
    have hall : upToNul (ns.toList.flatMap escChar ++ [':', '%']) =
        (ns.toList ++ [':']).flatMap escChar ++ ['%'] := by
      have htext := htail.upToNul_append []
      rw [List.append_nil] at htext
      rw [h.flatMap_escChar.upToNul_append, htext, List.flatMap_append]
      simp [escChar, upToNul]
    rw [if_pos h, hall, like_escaped, fold_prefix_iff]
    simp only [like_percent, and_true]
  · have hcut : ¬ NulFree (ns.toList.flatMap escChar) := by
      unfold NulFree at h ⊢
      push Not at h ⊢
      obtain ⟨c, hc, hnul⟩ := h
      refine ⟨c, List.mem_flatMap.mpr ⟨c, hc, ?_⟩, hnul⟩
      unfold escChar
      split <;> simp
    rw [if_neg h, upToNul_append_of_nul hcut, upToNul_flatMap_escChar,
      ← List.append_nil ((upToNul ns.toList).flatMap escChar), like_escaped]
    constructor
    · rintro ⟨x, y, htext, hx, hy⟩
      have hnil : y = [] := by
        cases y with
        | nil => rfl
        | cons d y => simp [like] at hy
      rw [htext, hnil, List.append_nil, hx]
    · exact fun hfold => ⟨_, [], (List.append_nil _).symm, hfold, rfl⟩

/-! ## Literal namespaces -/

/-- The tag starts with `<namespace>:`, character by character. -/
def InNs (ns tag : String) : Prop := ns.toList ++ [':'] <+: tag.toList

instance instDecidableInNs (ns tag : String) : Decidable (InNs ns tag) :=
  inferInstanceAs (Decidable (_ <+: _))

/-- No tag of the namespace escapes the pattern. -/
theorem InNs.spelled {ns tag : String} (h : InNs ns tag) : Spelled ns tag := by
  obtain ⟨rest, htag⟩ := h
  unfold Spelled
  rw [← htag]
  by_cases hns : NulFree ns.toList
  · have hfree : NulFree (ns.toList ++ [':']) := by
      intro c hc
      rcases List.mem_append.mp hc with hc | hc
      · exact hns c hc
      · rw [List.mem_singleton.mp hc]
        decide
    rw [if_pos hns, hfree.upToNul_append, fold_prefix_iff]
    exact ⟨_, _, rfl, rfl⟩
  · rw [if_neg hns, List.append_assoc, upToNul_append_of_nul hns]

/-! ## What a replacement leaves -/

variable {scan : HashMap.IterOrder Nat String} {entryId : Nat} {ns newTag : String}

/-- `replace_tag` takes the tag out. -/
def Evicted (ns tag : String) : Prop := ns ≠ "" ∧ Spelled ns tag

theorem run_evictPrior_eq {s s' : Store} {prior : Option String}
    (h : Run (evictPrior scan entryId ns) s prior s') :
    s'.entries = s.entries ∧
      (∀ t, t ∈ s'.entryTags ↔ t ∈ s.entryTags ∧ ¬ (t.1 = entryId ∧ Evicted ns t.2)) ∧
      (∀ tag, prior = some tag → (entryId, tag) ∈ s.entryTags ∧ Evicted ns tag) ∧
      (prior = none → ∀ tag, (entryId, tag) ∈ s.entryTags → ¬ Evicted ns tag) := by
  unfold evictPrior at h
  unfold Evicted
  by_cases hns : ns = ""
  · subst hns
    have hempty : "".isEmpty = true := by decide
    rw [if_pos hempty] at h
    obtain ⟨rfl, rfl⟩ := h.ret
    refine ⟨rfl, fun t => ?_, fun tag htag => ?_, fun _ tag _ => ?_⟩
    · simp
    · cases htag
    · simp
  · have hne : ¬ ns.isEmpty = true := fun hempty => hns (String.isEmpty_iff.mp hempty)
    rw [if_neg hne] at h
    obtain ⟨_, s₁, hq, h⟩ := Run.bind h
    obtain ⟨_, s₂, hd, h⟩ := Run.bind h
    obtain ⟨rfl, rfl⟩ := h.ret
    obtain ⟨rfl, hread⟩ := hq.query
    rw [hread] at hd
    have hs : s' = _ := hd.update
    have hscan : ∀ t, t ∈ scan.arrange (s.entryTags.filter (inNamespace entryId ns)) ↔
        t ∈ s.entryTags ∧ t.1 = entryId ∧ Spelled ns t.2 := by
      intro t
      rw [(scan.perm _).mem_iff, List.mem_filter, inNamespace_iff]
    subst hs
    refine ⟨rfl, fun t => ?_, fun tag htag => ?_, fun hnone tag hmem hev => ?_⟩
    · dsimp only
      rw [List.mem_filter, Bool.not_eq_true', ← Bool.not_eq_true, inNamespace_iff]
      simp [hns]
    · obtain ⟨t, ht, rfl⟩ := Option.map_eq_some_iff.mp htag
      obtain ⟨hmem, rfl, hsp⟩ := (hscan t).mp (List.mem_of_head? ht)
      exact ⟨hmem, hns, hsp⟩
    · have hin := (hscan (entryId, tag)).mpr ⟨hmem, rfl, hev.2⟩
      rw [Option.map_eq_none_iff, List.head?_eq_none_iff] at hnone
      rw [hnone] at hin
      cases hin

/-- **What the transaction leaves.** -/
theorem mem_of_run_replaceTagBody {s s' : Store} {prior : Option String}
    (h : Run (replaceTagBody scan entryId ns newTag) s prior s') :
    (∀ t, t ∈ s'.entryTags ↔
        (t ∈ s.entryTags ∧ ¬ (t.1 = entryId ∧ Evicted ns t.2)) ∨ t = (entryId, newTag)) ∧
      (∀ tag, prior = some tag → (entryId, tag) ∈ s.entryTags ∧ Evicted ns tag) ∧
      (prior = none → ∀ tag, (entryId, tag) ∈ s.entryTags → ¬ Evicted ns tag) := by
  obtain ⟨prior', s₁, hp, h⟩ := Run.bind h
  obtain ⟨_, s₂, hi, h⟩ := Run.bind h
  obtain ⟨rfl, rfl⟩ := h.ret
  obtain ⟨-, hmem, hsome, hnone⟩ := run_evictPrior_eq hp
  refine ⟨fun t => ?_, hsome, hnone⟩
  rw [← hmem t]
  have hs := hi.statement
  split at hs
  · rename_i hold
    cases hs
    constructor
    · exact fun ht => .inl ht
    · rintro (ht | rfl)
      · exact ht
      · exact hold
  · split at hs
    · cases hs
    · cases hs
      dsimp only
      rw [List.mem_append, List.mem_singleton]

/-! ## When it is exact -/

/-- The tags of the namespace, by their text, are replaced by the new one and reported. -/
structure Exact (s s' : Store) (entryId : Nat) (ns newTag : String) (prior : Option String) : Prop where
  removed : ∀ tag, (entryId, tag) ∈ s'.entryTags ↔
    ((entryId, tag) ∈ s.entryTags ∧ ¬ InNs ns tag) ∨ tag = newTag
  others : ∀ id tag, id ≠ entryId → ((id, tag) ∈ s'.entryTags ↔ (id, tag) ∈ s.entryTags)
  one : ∃! tag, (entryId, tag) ∈ s'.entryTags ∧ InNs ns tag
  reported : ∀ tag, prior = some tag ↔ (entryId, tag) ∈ s.entryTags ∧ InNs ns tag

/-- The namespace holds one tag at most, the new tag is one of it, and no other tag of the entry is spelled
as one. An empty namespace evicts nothing. -/
structure Replaceable (s : Store) (entryId : Nat) (ns newTag : String) : Prop where
  tagged : InNs ns newTag
  single : ∀ tag tag', (entryId, tag) ∈ s.entryTags → InNs ns tag →
    (entryId, tag') ∈ s.entryTags → InNs ns tag' → tag = tag'
  named : ns = "" → ∀ tag, (entryId, tag) ∈ s.entryTags → ¬ InNs ns tag
  spelled : ns ≠ "" → ∀ tag, (entryId, tag) ∈ s.entryTags → Spelled ns tag → InNs ns tag

theorem Replaceable.evicted_iff {s : Store} (h : Replaceable s entryId ns newTag) {tag : String}
    (hmem : (entryId, tag) ∈ s.entryTags) : Evicted ns tag ↔ InNs ns tag := by
  constructor
  · exact fun hev => h.spelled hev.1 tag hmem hev.2
  · exact fun hin => ⟨fun hns => h.named hns tag hmem hin, hin.spelled⟩

theorem exact_of_replaceable {s s' : Store} {prior : Option String}
    (hrun : Run (replaceTagBody scan entryId ns newTag) s prior s')
    (h : Replaceable s entryId ns newTag) : Exact s s' entryId ns newTag prior := by
  obtain ⟨hmem, hsome, hnone⟩ := mem_of_run_replaceTagBody hrun
  have hremoved : ∀ tag, (entryId, tag) ∈ s'.entryTags ↔
      ((entryId, tag) ∈ s.entryTags ∧ ¬ InNs ns tag) ∨ tag = newTag := by
    intro tag
    rw [hmem, Prod.mk.injEq]
    simp only [true_and]
    refine or_congr_left (and_congr_right fun hold => ?_)
    rw [h.evicted_iff hold]
  refine ⟨hremoved, fun id tag hne => ?_, ⟨newTag, ⟨?_, h.tagged⟩, ?_⟩, fun tag => ?_⟩
  · rw [hmem]
    simp [hne]
  · exact (hremoved newTag).mpr (.inr rfl)
  · rintro tag ⟨hin, htag⟩
    exact ((hremoved tag).mp hin).resolve_left fun hold => hold.2 htag
  · constructor
    · intro htag
      obtain ⟨hold, hev⟩ := hsome tag htag
      exact ⟨hold, (h.evicted_iff hold).mp hev⟩
    · rintro ⟨hold, htag⟩
      cases hp : prior with
      | none => exact absurd ((h.evicted_iff hold).mpr htag) (hnone hp tag hold)
      | some other =>
        obtain ⟨hold', hev'⟩ := hsome other hp
        rw [h.single tag other hold htag hold' ((h.evicted_iff hold').mp hev')]

theorem replaceable_of_exact {s s' : Store} {prior : Option String}
    (hrun : Run (replaceTagBody scan entryId ns newTag) s prior s')
    (h : Exact s s' entryId ns newTag prior) : Replaceable s entryId ns newTag := by
  obtain ⟨hmem, hsome, -⟩ := mem_of_run_replaceTagBody hrun
  have htagged : InNs ns newTag := by
    obtain ⟨tag, ⟨hin, htag⟩, -⟩ := h.one
    rcases (h.removed tag).mp hin with hold | rfl
    · exact absurd htag hold.2
    · exact htag
  refine ⟨htagged, fun tag tag' hold htag hold' htag' => ?_, fun hns tag hold htag => ?_, ?_⟩
  · have heq : prior = some tag := (h.reported tag).mpr ⟨hold, htag⟩
    rw [(h.reported tag').mpr ⟨hold', htag'⟩] at heq
    exact (Option.some.inj heq).symm
  · exact (hsome tag ((h.reported tag).mpr ⟨hold, htag⟩)).2.1 hns
  · intro hns tag hold hsp
    by_contra hnot
    -- the claim keeps the tag, the pattern takes it out
    rcases (hmem (entryId, tag)).mp ((h.removed tag).mpr (.inl ⟨hold, hnot⟩)) with hkept | hnew
    · exact hkept.2 ⟨rfl, hns, hsp⟩
    · rw [(Prod.mk.inj hnew).2] at hnot
      exact hnot htagged

variable (scan ns newTag) in
theorem passes_replaceTagBody (s : Store) (hentry : (s.entries.lookup entryId).isSome = true) :
    ∃ prior s', Passes (replaceTagBody scan entryId ns newTag) s prior s' := by
  have hevict : ∃ prior s₁, Passes (evictPrior scan entryId ns) s prior s₁ ∧
      s₁.entries = s.entries := by
    unfold evictPrior
    split
    · exact ⟨none, s, Passes.ret s none, rfl⟩
    · exact ⟨_, _, (Passes.query _ s).bind ((Passes.update _ s).bind (Passes.ret _ _)), rfl⟩
  obtain ⟨prior, s₁, hp, hentries⟩ := hevict
  have hinsert : ∃ s₂, Passes (insertTagIfAbsent entryId newTag) s₁ () s₂ := by
    by_cases hold : (entryId, newTag) ∈ s₁.entryTags
    · exact ⟨s₁, Passes.statement (if_pos hold)⟩
    · refine ⟨_, Passes.statement ((if_neg hold).trans (if_neg ?_))⟩
      rw [hentries, Option.isNone_iff_eq_none]
      exact Option.isSome_iff_ne_none.mp hentry
  obtain ⟨s₂, hi⟩ := hinsert
  exact ⟨prior, s₂, hp.bind (hi.bind (Passes.ret s₂ prior))⟩

/-- **A replacement is exact exactly when the condition holds.** One that fails changes nothing, and where
no statement fails an entry that exists gets one. -/
theorem replaceTag_exact_iff (scan : HashMap.IterOrder Nat String) (entryId : Nat) (ns newTag : String)
    (c : Conn Store StoreError) :
    (∀ prior, (replaceTag scan entryId ns newTag c).1 = .ok prior →
      (Exact c.db (replaceTag scan entryId ns newTag c).2.db entryId ns newTag prior ↔
        Replaceable c.db entryId ns newTag)) ∧
    (∀ e, (replaceTag scan entryId ns newTag c).1 = .error e →
      (replaceTag scan entryId ns newTag c).2.db = c.db) ∧
    (c.fault = none → (c.db.entries.lookup entryId).isSome = true →
      ∃ prior, (replaceTag scan entryId ns newTag c).1 = .ok prior) := by
  rw [← and_assoc]
  constructor
  · have hs := transaction_settled (replaceTagBody scan entryId ns newTag) c
    unfold replaceTag
    generalize transaction (replaceTagBody scan entryId ns newTag) c = r at hs ⊢
    cases hs with
    | failed e => exact ⟨fun prior h => (by cases h), fun _ _ => rfl⟩
    | committed prior c' hrun =>
      refine ⟨fun prior' h => ?_, fun e h => (by cases h)⟩
      cases h
      exact ⟨replaceable_of_exact hrun, exact_of_replaceable hrun⟩
  · intro hfault hentry
    obtain ⟨db, fault⟩ := c
    dsimp only at hfault hentry
    subst hfault
    obtain ⟨prior, s', hpasses⟩ := passes_replaceTagBody scan ns newTag db hentry
    refine ⟨prior, ?_⟩
    unfold replaceTag
    rw [hpasses.transaction]

/-- Entry 1 has one tag, of the namespace `Phase`. -/
def capitalTag : Store := { linkStore [(1, linkRow .active none none)] with entryTags := [(1, "Phase:old")] }

/-- Replacing in `phase` takes the tag of `Phase`, and reports it as the prior one. -/
theorem replaceTag_takes_other_case :
    ¬ ∀ (scan : HashMap.IterOrder Nat String) (entryId : Nat) (ns newTag : String)
        (c : Conn Store StoreError) (prior : Option String), ns ≠ "" → InNs ns newTag →
        (replaceTag scan entryId ns newTag c).1 = .ok prior →
        Exact c.db (replaceTag scan entryId ns newTag c).2.db entryId ns newTag prior := by
  intro hclaim
  have hexact := hclaim .stored 1 "phase" "phase:new" ⟨capitalTag, none⟩ (some "Phase:old") (by decide)
    (by decide +kernel) (by decide +kernel)
  have hkept := (hexact.removed "Phase:old").mpr (.inl (by decide +kernel))
  revert hkept
  decide +kernel

end Store
end Unimatrix
