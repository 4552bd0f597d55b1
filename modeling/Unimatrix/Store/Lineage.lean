import Unimatrix.Store.Supersession

/-!
# What a walk along the supersession links returns

`Succession` is the edge from an entry to one that supersedes it. In a store whose two links agree and do
not cycle (`WellLinked`) a chain query returns the seed with its relatives up to the cap, once each and older
before newer (**`querySupersessionChain_answers`**); its flags, though, are always false
(`querySupersessionChain_flags`), so they are right exactly when nothing lies beyond the cap
(**`querySupersessionChain_exact_iff`**).

The two terminal searches follow `superseded_by`, whatever it says. They agree on every id but those whose
terminal is 50 hops away (**`followToCurrent_agrees_iff`**).
-/

namespace Unimatrix

open Digraph

namespace Store

/-! ## Merging -/

/-- The rows kept, in order. -/
def merged (rows : List (EntryRecord × Nat)) : List EntryRecord := (rows.foldl mergeRow ([], [])).1

theorem mergeChainResults_eq (backward forward : List (EntryRecord × Nat)) :
    mergeChainResults backward forward = merged (backward.reverse ++ forward) := by
  unfold mergeChainResults merged
  rw [List.foldl_append]

theorem mem_seen (rows : List (EntryRecord × Nat)) (id : Nat) :
    id ∈ (rows.foldl mergeRow ([], [])).2 ↔ id ∈ (merged rows).map EntryRecord.id := by
  unfold merged
  induction rows using List.reverseRecOn with
  | nil => rfl
  | append_singleton rows r ih =>
    rw [List.foldl_append, List.foldl_cons, List.foldl_nil]
    generalize rows.foldl mergeRow ([], []) = acc at ih ⊢
    unfold mergeRow
    split
    · exact ih
    · rw [List.mem_cons, List.map_append, List.mem_append, ih, List.map_singleton,
        List.mem_singleton]
      exact or_comm

theorem merged_concat (rows : List (EntryRecord × Nat)) (r : EntryRecord × Nat) :
    merged (rows ++ [r]) =
      if r.1.id ∈ (merged rows).map EntryRecord.id then merged rows else merged rows ++ [r.1] := by
  have hstep : merged (rows ++ [r]) = (mergeRow (rows.foldl mergeRow ([], [])) r).1 := by
    unfold merged
    rw [List.foldl_append]
    rfl
  have hseen := mem_seen rows r.1.id
  rw [hstep]
  unfold merged at hseen ⊢
  generalize rows.foldl mergeRow ([], []) = acc at hseen ⊢
  unfold mergeRow
  by_cases h : r.1.id ∈ acc.2
  · rw [if_pos (List.contains_iff_mem.mpr h), if_pos (hseen.mp h)]
  · rw [if_neg fun hc => h (List.contains_iff_mem.mp hc), if_neg fun hc => h (hseen.mpr hc)]

theorem merged_sublist (rows : List (EntryRecord × Nat)) :
    (merged rows).Sublist (rows.map Prod.fst) := by
  induction rows using List.reverseRecOn with
  | nil => exact List.Sublist.refl _
  | append_singleton rows r ih =>
    rw [merged_concat, List.map_append]
    split
    · exact ih.trans (List.sublist_append_left _ _)
    · exact ih.append (List.Sublist.refl _)

theorem merged_ids_nodup (rows : List (EntryRecord × Nat)) :
    ((merged rows).map EntryRecord.id).Nodup := by
  induction rows using List.reverseRecOn with
  | nil => exact List.nodup_nil
  | append_singleton rows r ih =>
    rw [merged_concat]
    split
    · exact ih
    · rename_i h
      rw [List.map_append, List.map_singleton, List.nodup_append]
      refine ⟨ih, List.nodup_singleton _, ?_⟩
      rintro a ha b hb rfl
      rw [List.mem_singleton.mp hb] at ha
      exact h ha

theorem id_mem_merged {rows : List (EntryRecord × Nat)} {r : EntryRecord × Nat} (h : r ∈ rows) :
    r.1.id ∈ (merged rows).map EntryRecord.id := by
  induction rows using List.reverseRecOn with
  | nil => exact absurd h List.not_mem_nil
  | append_singleton rows r' ih =>
    rw [merged_concat]
    rcases List.mem_append.mp h with h | h
    · split
      · exact ih h
      · rw [List.map_append]
        exact List.mem_append_left _ (ih h)
    · rw [List.mem_singleton.mp h]
      split
      · assumption
      · rw [List.map_append]
        exact List.mem_append_right _ List.mem_cons_self

/-- Rows with the records of one store are all kept, up to repetition. -/
theorem mem_merged {s : Store} {rows : List (EntryRecord × Nat)}
    (hrows : ∀ r ∈ rows, s.find r.1.id = some r.1) {x : EntryRecord} :
    x ∈ merged rows ↔ ∃ n, (x, n) ∈ rows := by
  have hmem : ∀ {y}, y ∈ merged rows → ∃ n, (y, n) ∈ rows := by
    intro y hy
    obtain ⟨r, hr, rfl⟩ := List.mem_map.mp ((merged_sublist rows).subset hy)
    exact ⟨r.2, hr⟩
  constructor
  · exact hmem
  · rintro ⟨n, hr⟩
    obtain ⟨y, hy, hid⟩ := List.mem_map.mp (id_mem_merged hr)
    obtain ⟨m, hm⟩ := hmem hy
    have hxy : some y = some x := by rw [← hrows _ hm, hid, hrows _ hr]
    rwa [← Option.some.inj hxy]

/-! ## WellLinked stores -/

/-- `b` supersedes `a`. -/
abbrev Succession (s : Store) (a b : Nat) : Prop := s.LinkEdge EntryRow.supersedes a b

/-- The two links say the same, and lead nowhere twice. -/
structure WellLinked (s : Store) : Prop where
  inverse : ∀ a b, s.LinkEdge EntryRow.supersededBy b a ↔ s.Succession a b
  acyclic : Acyclic s.Succession

/-- An entry supersedes at most one other. -/
theorem supersedes_unique (s : Store) ⦃a a' b : Nat⦄ (h : s.Succession a b) (h' : s.Succession a' b) :
    a = a' := by
  obtain ⟨row, hl, hlink⟩ := h
  obtain ⟨row', hl', hlink'⟩ := h'
  rw [hl] at hl'
  cases hl'
  rw [hlink] at hlink'
  exact Option.some.inj hlink'

theorem WellLinked.backward {s : Store} (h : s.WellLinked) :
    s.LinkEdge EntryRow.supersededBy = fun a b => s.Succession b a := by
  funext b a
  exact propext (h.inverse a b)

/-- Both ends of a link are stored. -/
theorem WellLinked.stored {s : Store} (h : s.WellLinked) {a b : Nat} (he : s.Succession a b) :
    (s.entries.lookup a).isSome = true ∧ (s.entries.lookup b).isSome = true := by
  obtain ⟨row, hl, -⟩ := (h.inverse a b).mpr he
  obtain ⟨row', hl', -⟩ := he
  rw [hl, hl']
  exact ⟨rfl, rfl⟩

theorem isSome_of_find {s : Store} {x : EntryRecord} (h : s.find x.id = some x) :
    (s.entries.lookup x.id).isSome = true := by
  obtain ⟨row, hl, -⟩ := Option.map_eq_some_iff.mp h
  rw [hl]
  rfl

theorem id_of_find {s : Store} {id : Nat} {e : EntryRecord} (h : s.find id = some e) : e.id = id := by
  obtain ⟨row, -, rfl⟩ := Option.map_eq_some_iff.mp h
  rfl

theorem supersedes_of_find {s : Store} {x : EntryRecord} {a : Nat} (h : s.find x.id = some x)
    (hlink : x.supersedes = some a) : s.Succession a x.id := by
  obtain ⟨row, hl, he⟩ := Option.map_eq_some_iff.mp h
  refine ⟨row, hl, ?_⟩
  rw [← he] at hlink
  exact hlink

theorem WellLinked.stored_first {s : Store} (h : s.WellLinked) {a b n : Nat} (hw : Walk s.Succession a n b)
    (hb : (s.entries.lookup b).isSome = true) : (s.entries.lookup a).isSome = true := by
  cases n with
  | zero =>
    rw [walk_zero_iff.mp hw] at hb
    exact hb
  | succ n =>
    obtain ⟨c, he, -⟩ := hw.uncons
    exact (h.stored he).1

theorem WellLinked.stored_last {s : Store} (h : s.WellLinked) {a b n : Nat} (hw : Walk s.Succession a n b)
    (ha : (s.entries.lookup a).isSome = true) : (s.entries.lookup b).isSome = true := by
  cases n with
  | zero =>
    rw [← walk_zero_iff.mp hw] at ha
    exact ha
  | succ n =>
    obtain ⟨c, -, he⟩ := walk_succ_iff.mp hw
    exact (h.stored he).2

theorem mem_forwardRows {s : Store} (h : s.WellLinked) {o : HashMap.IterOrder Nat EntryRow}
    {id depthCap n : Nat} {x : EntryRecord} :
    (x, n) ∈ s.chainRows EntryRow.supersedes o id depthCap ↔
      s.find x.id = some x ∧ n ≤ depthCap ∧ Walk s.Succession id n x.id := by
  rw [mem_chainRows]
  constructor
  · rintro ⟨hn, -, hw, hfind⟩
    exact ⟨hfind, hn, hw⟩
  · rintro ⟨hfind, hn, hw⟩
    exact ⟨hn, h.stored_first hw (isSome_of_find hfind), hw, hfind⟩

theorem mem_backwardRows {s : Store} (h : s.WellLinked) {o : HashMap.IterOrder Nat EntryRow}
    {id depthCap n : Nat} {x : EntryRecord} :
    (x, n) ∈ s.chainRows EntryRow.supersededBy o id depthCap ↔
      s.find x.id = some x ∧ n ≤ depthCap ∧ Walk s.Succession x.id n id := by
  rw [mem_chainRows, h.backward, walk_reverse_iff]
  constructor
  · rintro ⟨hn, -, hw, hfind⟩
    exact ⟨hfind, hn, hw⟩
  · rintro ⟨hfind, hn, hw⟩
    exact ⟨hn, h.stored_last hw (isSome_of_find hfind), hw, hfind⟩

/-! ## The chain query -/

/-- The rows a query merges: its ancestors from the oldest, then its descendants. -/
def chainOf (s : Store) (oForward oBackward : HashMap.IterOrder Nat EntryRow) (id : Nat)
    (direction : ChainDirection) (depthCap : Nat) : List (EntryRecord × Nat) :=
  (if direction.walksBackward then s.chainRows EntryRow.supersededBy oBackward id depthCap
    else []).reverse ++
  (if direction.walksForward then s.chainRows EntryRow.supersedes oForward id depthCap else [])

theorem querySupersessionChain_entries (s : Store) (oForward oBackward : HashMap.IterOrder Nat EntryRow)
    (id : Nat) (direction : ChainDirection) (depthCap : Nat) :
    (s.querySupersessionChain oForward oBackward id direction depthCap).entries =
      merged (s.chainOf oForward oBackward id direction depthCap) := by
  cases direction <;> exact mergeChainResults_eq _ _

/-- **No flag is ever set.** -/
theorem querySupersessionChain_flags (s : Store) (oForward oBackward : HashMap.IterOrder Nat EntryRow)
    (id : Nat) (direction : ChainDirection) (depthCap : Nat) :
    (s.querySupersessionChain oForward oBackward id direction depthCap).forwardCapped = false ∧
      (s.querySupersessionChain oForward oBackward id direction depthCap).backwardCapped = false := by
  cases direction with
  | forward => exact ⟨detectCap_chainRows _ _ _ _ _, rfl⟩
  | backward => exact ⟨rfl, detectCap_chainRows _ _ _ _ _⟩
  | both => exact ⟨detectCap_chainRows _ _ _ _ _, detectCap_chainRows _ _ _ _ _⟩

theorem mem_chainOf {s : Store} (h : s.WellLinked) {oForward oBackward : HashMap.IterOrder Nat EntryRow}
    {id depthCap n : Nat} {direction : ChainDirection} {x : EntryRecord} :
    (x, n) ∈ s.chainOf oForward oBackward id direction depthCap ↔
      s.find x.id = some x ∧ n ≤ depthCap ∧
        ((direction.walksForward = true ∧ Walk s.Succession id n x.id) ∨
          (direction.walksBackward = true ∧ Walk s.Succession x.id n id)) := by
  unfold chainOf
  rw [List.mem_append, List.mem_reverse, List.mem_ite_nil_right, List.mem_ite_nil_right,
    mem_forwardRows h, mem_backwardRows h]
  tauto

/-- What a chain query is to return. -/
structure ChainAnswer (s : Store) (id : Nat) (direction : ChainDirection) (depthCap : Nat)
    (entries : List EntryRecord) : Prop where
  members : ∀ x, x ∈ entries ↔ s.find x.id = some x ∧ ∃ n ≤ depthCap,
    (direction.walksForward = true ∧ Walk s.Succession id n x.id) ∨
      (direction.walksBackward = true ∧ Walk s.Succession x.id n id)
  once : (entries.map EntryRecord.id).Nodup
  ordered : ∀ i (hi : i < entries.length) j (hj : j < entries.length),
    entries[i].supersedes = some entries[j].id → j < i

/-- No row comes before one it supersedes. -/
theorem chainOf_ordered {s : Store} (h : s.WellLinked)
    (oForward oBackward : HashMap.IterOrder Nat EntryRow) (id : Nat) (direction : ChainDirection)
    (depthCap : Nat) :
    (s.chainOf oForward oBackward id direction depthCap).Pairwise
      fun x y => x.1.supersedes ≠ some y.1.id := by
  have hlen : ∀ {a b m n}, Walk s.Succession a m b → Walk s.Succession a n b → m = n :=
    fun hw hw' => Walk.length_unique s.supersedes_unique h.acyclic hw hw'
  unfold chainOf
  rw [List.pairwise_append]
  refine ⟨?_, ?_, ?_⟩
  · split
    · rw [List.pairwise_reverse]
      refine (List.Pairwise.and_mem.mp (chainRows_sorted s _ _ id depthCap)).imp ?_
      rintro ⟨y, m⟩ ⟨x, n⟩ ⟨hy, hx, hmn⟩ hlink
      obtain ⟨-, -, hwy⟩ := (mem_backwardRows h).mp hy
      obtain ⟨hfind, -, hwx⟩ := (mem_backwardRows h).mp hx
      have := hlen hwy (hwx.cons (supersedes_of_find hfind hlink))
      dsimp only at hmn
      omega
    · exact List.Pairwise.nil
  · split
    · refine (List.Pairwise.and_mem.mp (chainRows_sorted s _ _ id depthCap)).imp ?_
      rintro ⟨x, n⟩ ⟨y, m⟩ ⟨hx, hy, hmn⟩ hlink
      obtain ⟨hfind, -, hwx⟩ := (mem_forwardRows h).mp hx
      obtain ⟨-, -, hwy⟩ := (mem_forwardRows h).mp hy
      have := hlen hwx (hwy.snoc (supersedes_of_find hfind hlink))
      dsimp only at hmn
      omega
    · exact List.Pairwise.nil
  · rintro ⟨x, n⟩ hx ⟨y, m⟩ hy hlink
    rw [List.mem_reverse, List.mem_ite_nil_right, mem_backwardRows h] at hx
    rw [List.mem_ite_nil_right, mem_forwardRows h] at hy
    obtain ⟨-, hfind, -, hwx⟩ := hx
    obtain ⟨-, -, -, hwy⟩ := hy
    exact h.acyclic _ _ ((hwx.append hwy).snoc (supersedes_of_find hfind hlink))

/-- **A chain query returns the relatives up to the cap, once each, older before newer.** -/
theorem querySupersessionChain_answers {s : Store} (h : s.WellLinked)
    (oForward oBackward : HashMap.IterOrder Nat EntryRow) (id : Nat) (direction : ChainDirection)
    (depthCap : Nat) :
    ChainAnswer s id direction depthCap
      (s.querySupersessionChain oForward oBackward id direction depthCap).entries := by
  rw [querySupersessionChain_entries]
  have hrows : ∀ r ∈ s.chainOf oForward oBackward id direction depthCap,
      s.find r.1.id = some r.1 := fun r hr => ((mem_chainOf h).mp hr).1
  have hmem : ∀ x, x ∈ merged (s.chainOf oForward oBackward id direction depthCap) ↔
      s.find x.id = some x ∧ ∃ n ≤ depthCap,
        (direction.walksForward = true ∧ Walk s.Succession id n x.id) ∨
          (direction.walksBackward = true ∧ Walk s.Succession x.id n id) := by
    intro x
    rw [mem_merged hrows]
    constructor
    · rintro ⟨n, hn⟩
      obtain ⟨hfind, hle, hw⟩ := (mem_chainOf h).mp hn
      exact ⟨hfind, n, hle, hw⟩
    · rintro ⟨hfind, n, hle, hw⟩
      exact ⟨n, (mem_chainOf h).mpr ⟨hfind, hle, hw⟩⟩
  refine ⟨hmem, merged_ids_nodup _, ?_⟩
  intro i hi j hj hlink
  have hpair : (merged (s.chainOf oForward oBackward id direction depthCap)).Pairwise
      fun x y => x.supersedes ≠ some y.id :=
    (List.pairwise_map.mpr (chainOf_ordered h oForward oBackward id direction depthCap)).sublist
      (merged_sublist _)
  rcases lt_trichotomy i j with hij | rfl | hij
  · exact absurd hlink (List.pairwise_iff_getElem.mp hpair i j hi hj hij)
  · have hfind := ((hmem _).mp (List.getElem_mem hi)).1
    exact absurd (walk_one_iff.mpr (supersedes_of_find hfind hlink)) (h.acyclic _ 0)
  · exact hij

/-- What the flags are to say: the flag of a direction that was walked, that some relative of that
direction is missing. -/
structure FlagsAnswer (s : Store) (id : Nat) (direction : ChainDirection) (r : ChainQueryResult) :
    Prop where
  forward : direction.walksForward = true →
    (r.forwardCapped = true ↔
      ∃ d n, Walk s.Succession id (n + 1) d ∧ d ∉ r.entries.map EntryRecord.id)
  notForward : direction.walksForward = false → r.forwardCapped = false
  backward : direction.walksBackward = true →
    (r.backwardCapped = true ↔
      ∃ d n, Walk s.Succession d (n + 1) id ∧ d ∉ r.entries.map EntryRecord.id)
  notBackward : direction.walksBackward = false → r.backwardCapped = false

/-- Every relative in a direction walked is at most `depthCap` links away. -/
structure WithinCap (s : Store) (id : Nat) (direction : ChainDirection) (depthCap : Nat) : Prop where
  forward : direction.walksForward = true → ∀ d n, Walk s.Succession id n d → n ≤ depthCap
  backward : direction.walksBackward = true → ∀ d n, Walk s.Succession d n id → n ≤ depthCap

/-- A relative within the cap is in the answer. -/
theorem ChainAnswer.mem_of_walk {s : Store} {id depthCap d n : Nat} {direction : ChainDirection}
    {entries : List EntryRecord} (ha : ChainAnswer s id direction depthCap entries)
    (hstored : (s.entries.lookup d).isSome = true) (hn : n ≤ depthCap)
    (hw : (direction.walksForward = true ∧ Walk s.Succession id n d) ∨
      (direction.walksBackward = true ∧ Walk s.Succession d n id)) :
    d ∈ entries.map EntryRecord.id := by
  obtain ⟨row, hl⟩ := Option.isSome_iff_exists.mp hstored
  have hfind : s.find d = some (entryFromRow d row (s.tagsOf d)) :=
    Option.map_eq_some_iff.mpr ⟨row, hl, rfl⟩
  exact List.mem_map.mpr
    ⟨entryFromRow d row (s.tagsOf d), (ha.members _).mpr ⟨hfind, n, hn, hw⟩, rfl⟩

/-- A relative beyond the cap is not: no shorter walk leads there, and none leads back. -/
theorem ChainAnswer.notMem_of_walk {s : Store} (h : s.WellLinked) {id depthCap d n : Nat}
    {direction : ChainDirection} {entries : List EntryRecord}
    (ha : ChainAnswer s id direction depthCap entries)
    (hw : Walk s.Succession id n d ∨ Walk s.Succession d n id) (hn : depthCap < n) :
    d ∉ entries.map EntryRecord.id := by
  have hlen : ∀ {a b m n}, Walk s.Succession a m b → Walk s.Succession a n b → m = n :=
    fun hw hw' => Walk.length_unique s.supersedes_unique h.acyclic hw hw'
  rw [List.mem_map]
  rintro ⟨x, hx, rfl⟩
  obtain ⟨-, m, hm, hxw⟩ := (ha.members x).mp hx
  rcases hw with hw | hw <;> rcases hxw with ⟨-, hxw⟩ | ⟨-, hxw⟩
  · have := hlen hw hxw
    omega
  · have := h.acyclic.length_eq_zero (hw.append hxw)
    omega
  · have := h.acyclic.length_eq_zero (hw.append hxw)
    omega
  · have := hlen hw hxw
    omega

/-- **A chain query answers exactly, flags included, iff no relative lies beyond the cap.** -/
theorem querySupersessionChain_exact_iff {s : Store} (h : s.WellLinked)
    (oForward oBackward : HashMap.IterOrder Nat EntryRow) (id : Nat) (direction : ChainDirection)
    (depthCap : Nat) :
    (ChainAnswer s id direction depthCap
        (s.querySupersessionChain oForward oBackward id direction depthCap).entries ∧
      FlagsAnswer s id direction
        (s.querySupersessionChain oForward oBackward id direction depthCap)) ↔
      WithinCap s id direction depthCap := by
  have hans := querySupersessionChain_answers h oForward oBackward id direction depthCap
  obtain ⟨hf, hb⟩ := querySupersessionChain_flags s oForward oBackward id direction depthCap
  generalize s.querySupersessionChain oForward oBackward id direction depthCap = r at hans hf hb
  -- A walk longer than the cap has an edge, and its end is missing: the flag should be set.
  have hlast : ∀ {n}, ¬ n ≤ depthCap → n - 1 + 1 = n := by omega
  constructor
  · rintro ⟨-, hflags⟩
    constructor
    · intro hdir d n hw
      by_contra hfar
      have hmiss := hans.notMem_of_walk h (.inl hw) (Nat.lt_of_not_le hfar)
      rw [← hlast hfar] at hw
      rw [(hflags.forward hdir).mpr ⟨d, n - 1, hw, hmiss⟩] at hf
      cases hf
    · intro hdir d n hw
      by_contra hfar
      have hmiss := hans.notMem_of_walk h (.inr hw) (Nat.lt_of_not_le hfar)
      rw [← hlast hfar] at hw
      rw [(hflags.backward hdir).mpr ⟨d, n - 1, hw, hmiss⟩] at hb
      cases hb
  · intro hcap
    refine ⟨hans, fun hdir => ?_, fun _ => hf, fun hdir => ?_, fun _ => hb⟩
    · rw [hf]
      refine ⟨fun hc => absurd hc Bool.false_ne_true, ?_⟩
      rintro ⟨d, n, hw, hmiss⟩
      obtain ⟨b, -, he⟩ := walk_succ_iff.mp hw
      exact absurd (hans.mem_of_walk (h.stored he).2 (hcap.forward hdir d _ hw) (.inl ⟨hdir, hw⟩)) hmiss
    · rw [hb]
      refine ⟨fun hc => absurd hc Bool.false_ne_true, ?_⟩
      rintro ⟨d, n, hw, hmiss⟩
      obtain ⟨b, he, -⟩ := hw.uncons
      exact absurd (hans.mem_of_walk (h.stored he).1 (hcap.backward hdir d _ hw) (.inr ⟨hdir, hw⟩)) hmiss

/-- A row whose chain columns are its links and its status, and nothing else. -/
def linkRow (status : Status) (supersedes supersededBy : Option Nat) : EntryRow where
  title := ""
  content := ""
  topic := ""
  category := ""
  source := ""
  status
  confidence := 0
  createdAt := 0
  updatedAt := 0
  lastAccessedAt := 0
  accessCount := 0
  supersedes
  supersededBy
  correctionCount := 0
  embeddingDim := 0
  createdBy := ""
  modifiedBy := ""
  contentHash := ""
  previousHash := ""
  version := 1
  featureCycle := ""
  trustSource := ""
  helpfulCount := 0
  unhelpfulCount := 0
  preQuarantineStatus := none

/-- A store of rows that say nothing else. -/
def linkStore (rows : List (Nat × EntryRow)) : Store where
  entries := HashMap.collect rows
  entryTags := []
  vectorMap := ∅
  counters := ⟨∅, false⟩

/-- Entry 2 supersedes entry 1, entry 3 supersedes entry 2. -/
def threeVersions : Store :=
  linkStore [(1, linkRow .deprecated none (some 2)), (2, linkRow .deprecated (some 1) (some 3)),
    (3, linkRow .active (some 2) none)]

theorem linkEdge_threeVersions {link : EntryRow → Option Nat} {a b : Nat} :
    threeVersions.LinkEdge link a b ↔
      (b = 1 ∧ link (linkRow .deprecated none (some 2)) = some a) ∨
      (b = 2 ∧ link (linkRow .deprecated (some 1) (some 3)) = some a) ∨
      (b = 3 ∧ link (linkRow .active (some 2) none) = some a) := by
  have hpairs : threeVersions.entries.pairs =
      [(3, linkRow .active (some 2) none), (2, linkRow .deprecated (some 1) (some 3)),
        (1, linkRow .deprecated none (some 2))] := rfl
  unfold LinkEdge
  simp only [← HashMap.mem_pairs, hpairs, List.mem_cons, List.not_mem_nil, Prod.mk.injEq]
  aesop

theorem threeVersions_wellLinked : threeVersions.WellLinked := by
  constructor
  · intro a b
    rw [Succession, linkEdge_threeVersions, linkEdge_threeVersions]
    simp only [linkRow, Option.some.injEq, reduceCtorEq, and_false, or_false, false_or]
    omega
  · have hlt : ∀ {a n b}, Walk threeVersions.Succession a n b → a + n ≤ b := by
      intro a n b hw
      induction hw with
      | refl => exact Nat.le_refl _
      | snoc _ he ih =>
        rw [Succession, linkEdge_threeVersions] at he
        simp only [linkRow, Option.some.injEq, reduceCtorEq, and_false, false_or] at he
        omega
    intro a n hw
    have := hlt hw
    omega

theorem querySupersessionChain_exact_iff_three :
    (ChainAnswer threeVersions 1 .both 1
        (threeVersions.querySupersessionChain .stored .stored 1 .both 1).entries ∧
      FlagsAnswer threeVersions 1 .both
        (threeVersions.querySupersessionChain .stored .stored 1 .both 1)) ↔
      WithinCap threeVersions 1 .both 1 :=
  querySupersessionChain_exact_iff threeVersions_wellLinked .stored .stored 1 .both 1

/-- From entry 1, one link forward: entry 3 is missing and the flag is down. -/
theorem cut_unreported :
    ¬ ∀ s : Store, s.WellLinked → ∀ (oForward oBackward : HashMap.IterOrder Nat EntryRow) (id : Nat)
      (direction : ChainDirection) (depthCap : Nat), 1 ≤ depthCap →
      ChainAnswer s id direction depthCap
        (s.querySupersessionChain oForward oBackward id direction depthCap).entries ∧
      FlagsAnswer s id direction
        (s.querySupersessionChain oForward oBackward id direction depthCap) := by
  intro hclaim
  obtain ⟨-, hflags⟩ :=
    hclaim threeVersions threeVersions_wellLinked .stored .stored 1 .forward 1 (Nat.le_refl 1)
  have hwalk : Walk threeVersions.Succession 1 (1 + 1) 3 :=
    (walk_one_iff.mpr (linkEdge_threeVersions.mpr (.inr (.inl ⟨rfl, rfl⟩)))).snoc
      (linkEdge_threeVersions.mpr (.inr (.inr ⟨rfl, rfl⟩)))
  have hmiss : 3 ∉ (threeVersions.querySupersessionChain .stored .stored 1 .forward 1).entries.map
      EntryRecord.id := by decide
  have hset := (hflags.forward rfl).mpr ⟨3, 1, hwalk, hmiss⟩
  rw [(querySupersessionChain_flags threeVersions .stored .stored 1 .forward 1).1] at hset
  cases hset

/-! ## The current terminal -/

/-- `id` is an Active entry that nothing superseded. -/
def Terminal (s : Store) (id : Nat) : Prop := ∃ e, s.find id = some e ∧ isCurrent e = true

/-- The link both searches follow. -/
def Followed (s : Store) (a b : Nat) : Prop := s.successor a = some b

theorem followed_unique (s : Store) ⦃a b c : Nat⦄ (h : s.Followed a b) (h' : s.Followed a c) :
    b = c := Option.some.inj (h.symm.trans h')

theorem followed_of_find {s : Store} {id : Nat} {e : EntryRecord} (h : s.find id = some e) (b : Nat) :
    s.Followed id b ↔ e.supersededBy = some b := by
  obtain ⟨row, hl, rfl⟩ := Option.map_eq_some_iff.mp h
  unfold Followed successor
  rw [hl]
  exact Iff.rfl

theorem find_of_followed {s : Store} {a b : Nat} (h : s.Followed a b) : ∃ e, s.find a = some e := by
  obtain ⟨row, hl, -⟩ := Option.bind_eq_some_iff.mp h
  exact ⟨_, Option.map_eq_some_iff.mpr ⟨row, hl, rfl⟩⟩

theorem terminal_of_find {s : Store} {id : Nat} {e : EntryRecord} (h : s.find id = some e) :
    s.Terminal id ↔ e.supersededBy = none ∧ e.status = .active := by
  have hcur : isCurrent e = true ↔ e.supersededBy = none ∧ e.status = .active := by
    unfold isCurrent
    rw [Bool.and_eq_true, Option.isNone_iff_eq_none, beq_iff_eq]
  rw [← hcur]
  constructor
  · rintro ⟨e', hfind, hc⟩
    rw [h] at hfind
    rwa [Option.some.inj hfind]
  · exact fun hc => ⟨e, h, hc⟩

theorem Terminal.not_followed {s : Store} {a b : Nat} (h : s.Terminal a) : ¬ s.Followed a b := by
  obtain ⟨e, hfind, -⟩ := id h
  rw [followed_of_find hfind, ((terminal_of_find hfind).mp h).1]
  exact fun hc => by cases hc

/-- At most one terminal follows from an entry, at one distance. -/
theorem terminal_unique {s : Store} {id t t' m n : Nat} (ht : s.Terminal t) (ht' : s.Terminal t')
    (hw : Walk s.Followed id m t) (hw' : Walk s.Followed id n t') : m = n ∧ t = t' := by
  -- The longer walk passes through the end of the shorter one, where it has to stop.
  have hstop : ∀ {t t' m k}, s.Terminal t → Walk s.Followed id m t →
      Walk s.Followed id (m + k) t' → k = 0 := by
    intro t t' m k ht hw hw'
    obtain ⟨b, hb, hrest⟩ := hw'.split
    obtain rfl := hw.end_unique s.followed_unique hb
    exact (hrest.of_sink fun _ => ht.not_followed).1
  have hmn : m = n := by
    rcases Nat.le_total m n with hle | hle
    · obtain ⟨k, rfl⟩ := Nat.exists_eq_add_of_le hle
      rw [hstop ht hw hw', Nat.add_zero]
    · obtain ⟨k, rfl⟩ := Nat.exists_eq_add_of_le hle
      rw [hstop ht' hw' hw, Nat.add_zero]
  subst hmn
  exact ⟨rfl, hw.end_unique s.followed_unique hw'⟩

/-- A missing entry leads to no terminal. -/
theorem not_terminal_of_missing {s : Store} {id t m : Nat} (h : s.find id = none)
    (hw : Walk s.Followed id m t) : ¬ s.Terminal t := by
  have hsink : ∀ b, ¬ s.Followed id b := by
    intro b hb
    obtain ⟨e, he⟩ := find_of_followed hb
    rw [h] at he
    cases he
  rintro ⟨e, he, -⟩
  rw [(hw.of_sink hsink).2, h] at he
  cases he

/-- An entry without a successor leads to itself only. -/
theorem terminal_of_last {s : Store} {id t n : Nat} {e : EntryRecord} (h : s.find id = some e)
    (hlast : e.supersededBy = none) :
    (s.Terminal t ∧ ∃ m, m < n + 1 ∧ Walk s.Followed id m t) ↔ e.status = .active ∧ id = t := by
  constructor
  · rintro ⟨ht, m, -, hw⟩
    have hsink : ∀ b, ¬ s.Followed id b := by
      intro b hb
      rw [followed_of_find h, hlast] at hb
      cases hb
    obtain rfl := (hw.of_sink hsink).2
    exact ⟨((terminal_of_find h).mp ht).2, rfl⟩
  · rintro ⟨hactive, rfl⟩
    exact ⟨(terminal_of_find h).mpr ⟨hlast, hactive⟩, 0, Nat.succ_pos n, .refl⟩

/-- An entry with a successor leads to the terminals that one leads to, one hop further. -/
theorem terminal_of_linked {s : Store} {id next t n : Nat} {e : EntryRecord} (h : s.find id = some e)
    (hnext : e.supersededBy = some next) :
    (s.Terminal t ∧ ∃ m, m < n + 1 ∧ Walk s.Followed id m t) ↔
      s.Terminal t ∧ ∃ m, m < n ∧ Walk s.Followed next m t := by
  have hedge : ∀ b, s.Followed id b ↔ next = b := fun b => by
    rw [followed_of_find h, hnext, Option.some.injEq]
  refine and_congr_right fun ht => ?_
  constructor
  · rintro ⟨m, hm, hw⟩
    cases m with
    | zero =>
      rw [walk_zero_iff.mp hw] at ht
      exact absurd ((hedge next).mpr rfl) ht.not_followed
    | succ m =>
      obtain ⟨b, hb, hw'⟩ := hw.uncons
      obtain rfl := (hedge b).mp hb
      exact ⟨m, Nat.lt_of_succ_lt_succ hm, hw'⟩
  · rintro ⟨m, hm, hw⟩
    exact ⟨m + 1, Nat.succ_lt_succ hm, hw.cons ((hedge next).mpr rfl)⟩

/-- A loop of `n` passes finds the terminals fewer than `n` hops away. -/
theorem followLoop_eq_some {s : Store} {n id t : Nat} :
    s.followLoop n id = some t ↔ s.Terminal t ∧ ∃ m, m < n ∧ Walk s.Followed id m t := by
  induction n generalizing id with
  | zero =>
    constructor
    · intro h
      cases h
    · rintro ⟨-, m, hm, -⟩
      exact absurd hm (Nat.not_lt_zero m)
  | succ n ih =>
    unfold followLoop
    cases hfind : s.find id with
    | none =>
      constructor
      · intro h
        cases h
      · rintro ⟨ht, m, -, hw⟩
        exact absurd ht (not_terminal_of_missing hfind hw)
    | some entry =>
      dsimp only
      cases hsup : entry.supersededBy with
      | none =>
        rw [terminal_of_last hfind hsup]
        dsimp only
        split
        · rename_i hactive
          rw [Option.some.injEq, and_iff_right hactive]
        · rename_i hactive
          exact iff_of_false (fun h => by cases h) fun h => hactive h.1
      | some nextId =>
        rw [terminal_of_linked hfind hsup]
        exact ih

/-- **The point reads find a terminal fewer than 50 hops away.** -/
theorem followToCurrent_eq_some {s : Store} {id t : Nat} :
    s.followToCurrent id = some t ↔ s.Terminal t ∧ ∃ m, m < 50 ∧ Walk s.Followed id m t :=
  followLoop_eq_some

/-- **The recursive query finds a terminal at most 50 hops away.** -/
theorem queryCurrentTerminal_eq_some {s : Store} {o : HashMap.IterOrder Nat EntryRow} {id : Nat}
    {e : EntryRecord} :
    s.queryCurrentTerminal o id = some e ↔
      (s.find e.id = some e ∧ isCurrent e = true) ∧ ∃ m ≤ 50, Walk s.Followed id m e.id := by
  have hlevel : ∀ v n, v ∈ level (fun i => (s.successor i).toList) (s.seedRow id) n ↔
      id ∈ s.seedRow id ∧ Walk s.Followed id n v := fun v n =>
    mem_level (fun _ hv => (mem_seedRow.mp hv).1) (fun _ _ => Option.mem_toList) n
  have hmem : ∀ e, e ∈ s.joinEntries o ((List.range (50 + 1)).flatMap
      (level (fun i => (s.successor i).toList) (s.seedRow id))) ↔
      s.find e.id = some e ∧ ∃ m ≤ 50, Walk s.Followed id m e.id := by
    intro e
    rw [mem_joinEntries, List.mem_flatMap, and_comm]
    refine and_congr_right fun hfind => ?_
    constructor
    · rintro ⟨m, hm, hv⟩
      exact ⟨m, Nat.lt_succ_iff.mp (List.mem_range.mp hm), ((hlevel _ _).mp hv).2⟩
    · rintro ⟨m, hm, hw⟩
      refine ⟨m, List.mem_range.mpr (Nat.lt_succ_of_le hm), (hlevel _ _).mpr ⟨?_, hw⟩⟩
      refine mem_seedRow.mpr ⟨rfl, ?_⟩
      cases m with
      | zero =>
        rw [← walk_zero_iff.mp hw]
        exact isSome_of_find hfind
      | succ m =>
        obtain ⟨b, hb, -⟩ := hw.uncons
        obtain ⟨row, hl, -⟩ := Option.bind_eq_some_iff.mp hb
        rw [hl]
        rfl
  unfold queryCurrentTerminal
  constructor
  · intro h
    have hw := (hmem e).mp (List.mem_of_find?_eq_some h)
    exact ⟨⟨hw.1, List.find?_some h⟩, hw.2⟩
  · rintro ⟨⟨hfind, hcur⟩, m, hm, hw⟩
    have hin := (hmem e).mpr ⟨hfind, m, hm, hw⟩
    obtain ⟨e', he'⟩ := Option.isSome_iff_exists.mp (List.find?_isSome.mpr ⟨e, hin, hcur⟩)
    obtain ⟨hfind', m', -, hw'⟩ := (hmem e').mp (List.mem_of_find?_eq_some he')
    have hid := (terminal_unique ⟨e, hfind, hcur⟩ ⟨e', hfind', List.find?_some he'⟩ hw hw').2
    rw [he', ← hfind', ← hid, hfind]

/-- **The two searches agree on an id unless its terminal is 50 hops away.** -/
theorem followToCurrent_agrees_iff (s : Store) (o : HashMap.IterOrder Nat EntryRow) (id : Nat) :
    (∀ t, s.followToCurrent id = some t ↔
        ∃ e, s.queryCurrentTerminal o id = some e ∧ s.find t = some e) ↔
      ¬ ∃ t, s.Terminal t ∧ Walk s.Followed id 50 t := by
  have hquery : ∀ t, (∃ e, s.queryCurrentTerminal o id = some e ∧ s.find t = some e) ↔
      s.Terminal t ∧ ∃ m ≤ 50, Walk s.Followed id m t := by
    intro t
    constructor
    · rintro ⟨e, hq, hfind⟩
      obtain ⟨⟨-, hcur⟩, m, hm, hw⟩ := queryCurrentTerminal_eq_some.mp hq
      obtain rfl := id_of_find hfind
      exact ⟨⟨e, hfind, hcur⟩, m, hm, hw⟩
    · rintro ⟨⟨e, hfind, hcur⟩, m, hm, hw⟩
      obtain rfl := id_of_find hfind
      exact ⟨e, queryCurrentTerminal_eq_some.mpr ⟨⟨hfind, hcur⟩, m, hm, hw⟩, hfind⟩
  constructor
  · rintro hagree ⟨t, ht, hw⟩
    obtain ⟨-, m, hm, hw'⟩ :=
      followToCurrent_eq_some.mp ((hagree t).mpr ((hquery t).mpr ⟨ht, 50, Nat.le_refl 50, hw⟩))
    exact absurd (terminal_unique ht ht hw hw').1 (Nat.ne_of_gt hm)
  · intro hfar t
    rw [followToCurrent_eq_some, hquery]
    refine and_congr_right fun ht => ?_
    constructor
    · rintro ⟨m, hm, hw⟩
      exact ⟨m, hm.le, hw⟩
    · rintro ⟨m, hm, hw⟩
      refine ⟨m, Nat.lt_of_le_of_ne hm ?_, hw⟩
      rintro rfl
      exact hfar ⟨t, ht, hw⟩

/-- Fifty-one versions of one entry: 51 is current, and 50 hops from 1. -/
def fiftyOneVersions : Store :=
  linkStore ((List.range 51).map fun i =>
    (i + 1, linkRow (if i = 50 then .active else .deprecated) (if i = 0 then none else some i)
      (if i = 50 then none else some (i + 2))))

/-- Entry 1 has a current terminal 50 hops away: the query returns it, the loop gives up. -/
theorem terminal_at_fifty_missed :
    ¬ ∀ (s : Store) (o : HashMap.IterOrder Nat EntryRow) (id t : Nat),
      s.followToCurrent id = some t ↔
        ∃ e, s.queryCurrentTerminal o id = some e ∧ s.find t = some e := by
  intro hclaim
  have hquery : fiftyOneVersions.queryCurrentTerminal .stored 1 = fiftyOneVersions.find 51 ∧
      (fiftyOneVersions.find 51).isSome = true := by decide +kernel
  have hfollow : fiftyOneVersions.followToCurrent 1 = none := by decide +kernel
  obtain ⟨e, he⟩ := Option.isSome_iff_exists.mp hquery.2
  have := (hclaim fiftyOneVersions .stored 1 51).mpr ⟨e, hquery.1.trans he, he⟩
  rw [hfollow] at this
  cases this

end Store
end Unimatrix
