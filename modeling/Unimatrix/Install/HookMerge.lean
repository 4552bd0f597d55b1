import Unimatrix.Install.MergeSettings

/-!
# What a merge of the hook settings leaves

`settle` says for one event what steps 3 and 3c leave together, and `clear` what the opt-out leaves; both are on values, so
the identity of entries is gone. `merged_get` shows that a run of all events is this, event by event.

* `entriesBy_settle`: foreign entries stay with their matcher and in their order, and the only recognised entry is the new
  one, in a group with the matcher of the event. `settle_settle`: another merge leaves it as it is.
* `isUnimatrixHook_builtIn`: the commands of both built-in sources are recognised, whatever the paths are.

**`mergeSettings_merged`** is what the merge is for, for all settings.
-/

namespace Unimatrix.MergeSettings

open Install

variable {E F : Type}

/-! ## One event, as values -/

/-- The new entry in place of the first entry that is owned, without the others that are. -/
def placeFirst (owned : E → Bool) (newEntry : E) : List E → List E
  | [] => [newEntry]
  | hook :: hooks =>
    if owned hook then newEntry :: hooks.filter (fun h => !owned h) else hook :: placeFirst owned newEntry hooks

/-- Without the entries that are owned, and without groups that have none then. -/
def clear (owned : E → Bool) (groups : List (Group E)) : List (Group E) :=
  (groups.map (Group.filter fun h => !owned h)).filter Group.occupied

/-- The new entry in the first group with the matcher, or in a new group, and no other entry that is owned. -/
def settle (owned : E → Bool) (matcher : Option Text) (newEntry : E) : List (Group E) → List (Group E)
  | [] => [⟨matcher.map .string, some [newEntry], []⟩]
  | group :: groups =>
    if group.matches matcher then
      ⟨group.matcher, some (placeFirst owned newEntry (group.hooks.getD [])), group.others⟩ :: clear owned groups
    else clear owned [group] ++ settle owned matcher newEntry groups

/-- The entries of some kind, each with the matcher of its group. -/
def entriesBy (p : E → Bool) (groups : List (Group E)) : List (Option JsValue × E) :=
  groups.flatMap fun g => ((g.hooks.getD []).filter p).map (Prod.mk g.matcher)

section Values

variable {owned : E → Bool} {newEntry : E}

theorem filter_placeFirst (hnew : owned newEntry = true) (hooks : List E) :
    (placeFirst owned newEntry hooks).filter owned = [newEntry] ∧
      (placeFirst owned newEntry hooks).filter (fun h => !owned h) = hooks.filter fun h => !owned h := by
  induction hooks with
  | nil =>
    rw [placeFirst]
    simp [hnew]
  | cons hook hooks ih =>
    rw [placeFirst]
    split
    · rename_i hhook
      simp [hnew, hhook]
    · rename_i hhook
      simp [hhook, ih]

theorem placeFirst_placeFirst (hnew : owned newEntry = true) (hooks : List E) :
    placeFirst owned newEntry (placeFirst owned newEntry hooks) = placeFirst owned newEntry hooks := by
  induction hooks with
  | nil =>
    rw [placeFirst, placeFirst, if_pos hnew]
    rfl
  | cons hook hooks ih =>
    rw [placeFirst]
    split
    · rw [placeFirst, if_pos hnew, List.filter_filter]
      simp only [Bool.and_self]
    · rename_i hhook
      rw [placeFirst, if_neg hhook, ih]

theorem placeFirst_ne_nil (hooks : List E) : placeFirst owned newEntry hooks ≠ [] := by
  cases hooks with
  | nil => exact List.cons_ne_nil _ _
  | cons hook hooks =>
    rw [placeFirst]
    split
    · exact List.cons_ne_nil _ _
    · exact List.cons_ne_nil _ _

theorem clear_append (a b : List (Group E)) : clear owned (a ++ b) = clear owned a ++ clear owned b := by
  unfold clear
  rw [List.map_append, List.filter_append]

theorem clear_clear (groups : List (Group E)) : clear owned (clear owned groups) = clear owned groups := by
  induction groups with
  | nil => rfl
  | cons g groups ih =>
    have hsplit : g :: groups = [g] ++ groups := rfl
    rw [hsplit, clear_append, clear_append, ih]
    congr 1
    unfold clear
    rw [List.map_singleton]
    have htwice : Group.filter (fun h => !owned h) (Group.filter (fun h => !owned h) g) =
        Group.filter (fun h => !owned h) g := by
      unfold Group.filter
      rw [Option.map_map]
      congr 2
      funext hooks
      rw [Function.comp_apply, List.filter_filter]
      simp only [Bool.and_self]
    cases hocc : Group.occupied (Group.filter (fun h => !owned h) g) with
    | true => simp [hocc, htwice]
    | false => simp [hocc]

theorem matches_iff {g : Group E} {matcher : Option Text} :
    g.matches matcher = true ↔ g.matcher = matcher.map .string := by
  unfold Group.matches
  cases matcher with
  | none =>
    cases g.matcher with
    | none => simp
    | some v => cases v <;> simp
  | some m =>
    cases g.matcher with
    | none => simp
    | some v => cases v <;> simp

theorem settle_settle (hnew : owned newEntry = true) (matcher : Option Text) (groups : List (Group E)) :
    settle owned matcher newEntry (settle owned matcher newEntry groups) =
      settle owned matcher newEntry groups := by
  induction groups with
  | nil =>
    have hmatch : (⟨matcher.map .string, some [newEntry], []⟩ : Group E).matches matcher = true :=
      matches_iff.mpr rfl
    rw [settle, settle, if_pos hmatch, Option.getD_some, placeFirst, if_pos hnew]
    rfl
  | cons g groups ih =>
    rw [settle]
    split
    · rename_i hmatch
      have hmatch' : (⟨g.matcher, some (placeFirst owned newEntry (g.hooks.getD [])), g.others⟩ : Group E).matches
          matcher = true := matches_iff.mpr (matches_iff.mp hmatch)
      rw [settle, if_pos hmatch', Option.getD_some, placeFirst_placeFirst hnew, clear_clear]
    · rename_i hmatch
      -- a group that is left is as it was, but for the entries that are owned
      cases hocc : Group.occupied (Group.filter (fun h => !owned h) g) with
      | true =>
        have hleft : clear owned [g] = [Group.filter (fun h => !owned h) g] := by
          simp [clear, hocc]
        have hmatch' : ¬ (Group.filter (fun h => !owned h) g).matches matcher = true := fun h =>
          hmatch (matches_iff.mpr (matches_iff.mp h))
        have hagain : clear owned (clear owned [g]) = clear owned [g] := clear_clear [g]
        rw [hleft] at hagain
        rw [hleft, List.singleton_append, settle, if_neg hmatch', ih, hagain, List.singleton_append]
      | false =>
        have hleft : clear owned [g] = [] := by
          simp [clear, hocc]
        rw [hleft, List.nil_append, ih]

/-! ## Entries -/

theorem entriesBy_cons (p : E → Bool) (g : Group E) (groups : List (Group E)) :
    entriesBy p (g :: groups) = ((g.hooks.getD []).filter p).map (Prod.mk g.matcher) ++ entriesBy p groups :=
  List.flatMap_cons

theorem entriesBy_append (p : E → Bool) (a b : List (Group E)) :
    entriesBy p (a ++ b) = entriesBy p a ++ entriesBy p b := List.flatMap_append

theorem entriesBy_clear (p : E → Bool) (groups : List (Group E)) :
    entriesBy p (clear owned groups) = entriesBy (fun h => !owned h && p h) groups := by
  induction groups with
  | nil => rfl
  | cons g groups ih =>
    have hsplit : g :: groups = [g] ++ groups := rfl
    rw [hsplit, clear_append, entriesBy_append, entriesBy_append, ih]
    congr 1
    have hgroup : ((Group.filter (fun h => !owned h) g).hooks.getD []).filter p =
        (g.hooks.getD []).filter fun h => !owned h && p h := by
      unfold Group.filter
      cases g.hooks with
      | none => rfl
      | some hooks =>
        simp only [Option.map_some, Option.getD_some, List.filter_filter]
        exact List.filter_congr fun h _ => Bool.and_comm _ _
    cases hocc : Group.occupied (Group.filter (fun h => !owned h) g) with
    | true =>
      have hleft : clear owned [g] = [Group.filter (fun h => !owned h) g] := by
        simp [clear, hocc]
      rw [hleft, entriesBy_cons, entriesBy_cons, hgroup]
      rfl
    | false =>
      have hleft : clear owned [g] = [] := by
        simp [clear, hocc]
      have hnone : (Group.filter (fun h => !owned h) g).hooks.getD [] = [] := by
        simpa [Group.occupied] using hocc
      rw [hnone, List.filter_nil] at hgroup
      rw [hleft, entriesBy_cons, ← hgroup]
      rfl

/-- **What one event has then.** -/
theorem entriesBy_settle (hnew : owned newEntry = true) (matcher : Option Text) (groups : List (Group E)) :
    entriesBy owned (settle owned matcher newEntry groups) = [(matcher.map .string, newEntry)] ∧
      entriesBy (fun h => !owned h) (settle owned matcher newEntry groups) =
        entriesBy (fun h => !owned h) groups := by
  have hcleared : ∀ gs : List (Group E), entriesBy owned (clear owned gs) = [] ∧
      entriesBy (fun h => !owned h) (clear owned gs) = entriesBy (fun h => !owned h) gs := by
    intro gs
    rw [entriesBy_clear, entriesBy_clear]
    simp [entriesBy]
  induction groups with
  | nil =>
    rw [settle]
    simp [entriesBy, hnew]
  | cons g groups ih =>
    rw [settle]
    split
    · rename_i hmatch
      obtain ⟨hone, hforeign⟩ := filter_placeFirst hnew (g.hooks.getD [])
      rw [entriesBy_cons, entriesBy_cons, entriesBy_cons, (hcleared groups).1, (hcleared groups).2,
        Option.getD_some, hone, hforeign, matches_iff.mp hmatch]
      exact ⟨rfl, rfl⟩
    · have hsplit : g :: groups = [g] ++ groups := rfl
      rw [entriesBy_append, entriesBy_append, ih.1, ih.2, (hcleared [g]).1, (hcleared [g]).2, hsplit,
        entriesBy_append]
      exact ⟨rfl, rfl⟩

end Values

/-! ## Values of entries -/

theorem map_value_read (g : Group JsValue) : (g.map Hook.read).map Hook.value = g := by
  unfold Group.map
  rw [Option.map_map]
  have hid : List.map Hook.value ∘ List.map Hook.read = id := by
    funext hooks
    rw [Function.comp_apply, List.map_map]
    exact List.map_id hooks
  rw [hid, Option.map_id_fun, id_eq]

theorem map_map_value_read (groups : List (Group JsValue)) :
    (groups.map (Group.map Hook.read)).map (Group.map Hook.value) = groups := by
  rw [List.map_map]
  conv_rhs => rw [← List.map_id groups]
  exact List.map_congr_left fun g _ => map_value_read g

theorem map_placeFirst (owned : F → Bool) (f : E → F) (newEntry : E) (hooks : List E) :
    (placeFirst (fun h => owned (f h)) newEntry hooks).map f =
      placeFirst owned (f newEntry) (hooks.map f) := by
  induction hooks with
  | nil => rfl
  | cons hook hooks ih =>
    rw [placeFirst, List.map_cons, placeFirst]
    split
    · rw [List.map_cons, List.filter_map]
      rfl
    · rw [List.map_cons, ih]

theorem mem_placeFirst {owned : E → Bool} {newEntry hook : E} {hooks : List E}
    (h : hook ∈ placeFirst owned newEntry hooks) : hook = newEntry ∨ hook ∈ hooks ∧ owned hook = false := by
  induction hooks with
  | nil => exact .inl (List.mem_singleton.mp h)
  | cons first hooks ih =>
    rw [placeFirst] at h
    split at h
    · refine (List.mem_cons.mp h).imp_right fun h => ?_
      obtain ⟨hmem, hnot⟩ := List.mem_filter.mp h
      exact ⟨List.mem_cons_of_mem _ hmem, by simpa using hnot⟩
    · rename_i hfirst
      rcases List.mem_cons.mp h with rfl | h
      · exact .inr ⟨List.mem_cons_self, by simpa using hfirst⟩
      · exact (ih h).imp_right fun h => ⟨List.mem_cons_of_mem _ h.1, h.2⟩

/-! ## Step 3 in a group -/

theorem ownedIndices_succ (i : Nat) (hooks : List Hook) :
    ownedIndices (i + 1) hooks = (ownedIndices i hooks).map (· + 1) := by
  induction hooks generalizing i with
  | nil => rfl
  | cons hook hooks ih =>
    rw [ownedIndices, ownedIndices]
    split
    · rw [List.map_cons, ih]
    · exact ih (i + 1)

theorem foldr_eraseIdx_succ (hook : Hook) (hooks : List Hook) (is : List Nat) :
    (is.map (· + 1)).foldr (fun i hooks => hooks.eraseIdx i) (hook :: hooks) =
      hook :: is.foldr (fun i hooks => hooks.eraseIdx i) hooks := by
  induction is with
  | nil => rfl
  | cons i is ih => rw [List.map_cons, List.foldr_cons, ih, List.foldr_cons, List.eraseIdx_cons_succ]

/-- Splicing out every recognised entry, from the last one on. -/
theorem foldr_eraseIdx_ownedIndices (hooks : List Hook) :
    (ownedIndices 0 hooks).foldr (fun i hooks => hooks.eraseIdx i) hooks =
      hooks.filter fun h => !isUnimatrixHook h.value := by
  induction hooks with
  | nil => rfl
  | cons hook hooks ih =>
    rw [ownedIndices, ownedIndices_succ]
    split
    · rename_i hhook
      rw [List.foldr_cons, foldr_eraseIdx_succ, ih, List.eraseIdx_cons_zero]
      simp [hhook]
    · rename_i hhook
      rw [foldr_eraseIdx_succ, ih]
      simp [hhook]

theorem mergeIntoGroup_of_nil (event : Text) (newEntry : Hook) {hooks : List Hook} (h : ownedIndices 0 hooks = []) :
    (mergeIntoGroup event newEntry hooks).1 = hooks ++ [newEntry] := by
  unfold mergeIntoGroup
  rw [h]

theorem mergeIntoGroup_of_cons (event : Text) (newEntry : Hook) {hooks : List Hook} {existingIndex : Nat}
    {duplicateIndices : List Nat} (h : ownedIndices 0 hooks = existingIndex :: duplicateIndices) :
    (mergeIntoGroup event newEntry hooks).1 =
      (duplicateIndices.foldr (fun i hooks => hooks.eraseIdx i) hooks).set existingIndex newEntry := by
  unfold mergeIntoGroup
  rw [h]

theorem mergeIntoGroup_fst (event : Text) (newEntry : Hook) (hooks : List Hook) :
    (mergeIntoGroup event newEntry hooks).1 =
      placeFirst (fun h => isUnimatrixHook h.value) newEntry hooks := by
  induction hooks with
  | nil => rfl
  | cons hook hooks ih =>
    have hindices : ownedIndices 0 (hook :: hooks) = if isUnimatrixHook hook.value = true
        then 0 :: (ownedIndices 0 hooks).map (· + 1) else (ownedIndices 0 hooks).map (· + 1) := by
      rw [ownedIndices, ownedIndices_succ]
    rw [placeFirst]
    by_cases hhook : isUnimatrixHook hook.value = true
    · rw [if_pos hhook] at hindices ⊢
      rw [mergeIntoGroup_of_cons event newEntry hindices, foldr_eraseIdx_succ, foldr_eraseIdx_ownedIndices,
        List.set_cons_zero]
    · rw [if_neg hhook] at hindices ⊢
      rw [← ih]
      cases hrest : ownedIndices 0 hooks with
      | nil =>
        rw [hrest] at hindices
        rw [mergeIntoGroup_of_nil event newEntry hindices, mergeIntoGroup_of_nil event newEntry hrest, List.cons_append]
      | cons existingIndex duplicateIndices =>
        rw [hrest] at hindices
        rw [mergeIntoGroup_of_cons event newEntry hindices, mergeIntoGroup_of_cons event newEntry hrest,
          foldr_eraseIdx_succ, List.set_cons_succ]

/-! ## Steps 3 and 3c for an event -/

/-- Where nothing is kept but what is not recognised, groups from the file are cleared. -/
theorem pruneGroups_read (keep : Hook → Bool) (hkeep : ∀ v, keep (.read v) = !isUnimatrixHook v) (action : Text)
    (groups : List (Group JsValue)) :
    (pruneGroups keep action (groups.map (Group.map Hook.read))).1.map (Group.map Hook.value) =
      clear isUnimatrixHook groups := by
  unfold pruneGroups clear
  induction groups with
  | nil => rfl
  | cons g groups ih =>
    have hgroup : Group.filter keep (g.map Hook.read) =
        (Group.filter (fun h => !isUnimatrixHook h) g).map Hook.read := by
      unfold Group.filter Group.map
      rw [Option.map_map, Option.map_map]
      congr 2
      funext hooks
      rw [Function.comp_apply, Function.comp_apply, List.filter_map]
      congr 1
      exact List.filter_congr fun v _ => hkeep v
    have hocc : ∀ g : Group JsValue, (g.map Hook.read).occupied = g.occupied := by
      intro g
      unfold Group.occupied Group.map
      cases g.hooks with
      | none => rfl
      | some hooks => cases hooks <;> rfl
    simp only [List.map_cons, hgroup, List.filter_cons, hocc]
    split
    · rw [List.map_cons, map_value_read, ih]
    · exact ih

theorem pruneGroups_cons (keep : Hook → Bool) (action : Text) (g : Group Hook) (groups : List (Group Hook)) :
    (pruneGroups keep action (g :: groups)).1 =
      (pruneGroups keep action [g]).1 ++ (pruneGroups keep action groups).1 := by
  unfold pruneGroups
  rw [← List.singleton_append, List.map_append, List.filter_append]

/-- Step 3c has nothing to take out of a group that step 3 has written. -/
theorem filter_stale_placeFirst {newEntry : Hook} {kept : Nat} (hnew : newEntry.created = some kept) (hooks : List Hook) :
    (placeFirst (fun h => isUnimatrixHook h.value) newEntry hooks).filter (fun hook => !isStale (some kept) hook) =
      placeFirst (fun h => isUnimatrixHook h.value) newEntry hooks := by
  refine List.filter_eq_self.mpr fun h hmem => ?_
  unfold isStale
  rcases mem_placeFirst hmem with rfl | ⟨-, hnot⟩
  · simp [hnew]
  · rw [hnot]
    rfl

/-- **Steps 3 and 3c for one event, as values.** -/
theorem settle_of_steps {kept : Nat} (event action : Text) (matcher : Option Text) (newValue : JsValue)
    (groups : List (Group JsValue)) :
    (pruneGroups (fun hook => !isStale (some kept) hook) action
      (mergeIntoGroups event matcher ⟨newValue, some kept⟩ (groups.map (Group.map Hook.read))).1).1.map
        (Group.map Hook.value) = settle isUnimatrixHook matcher newValue groups := by
  have hread := pruneGroups_read (fun hook => !isStale (some kept) hook)
    (fun v => by simp [isStale, Hook.read]) action
  have hnew : isStale (some kept) ⟨newValue, some kept⟩ = false := by
    simp [isStale]
  induction groups with
  | nil =>
    rw [settle, List.map_nil, mergeIntoGroups]
    simp [pruneGroups, Group.filter, Group.occupied, Group.map, hnew]
  | cons g groups ih =>
    have hmatches : (g.map Hook.read).matches matcher = g.matches matcher := rfl
    rw [List.map_cons, mergeIntoGroups, settle, hmatches]
    split
    · dsimp only
      rw [pruneGroups_cons, List.map_append, hread, mergeIntoGroup_fst]
      have hhooks : (g.map Hook.read).hooks.getD [] = (g.hooks.getD []).map Hook.read := by
        unfold Group.map
        cases g.hooks with
        | none => rfl
        | some hooks => rfl
      rw [hhooks]
      have hcreated : (⟨newValue, some kept⟩ : Hook).created = some kept := rfl
      have hkept := filter_stale_placeFirst hcreated ((g.hooks.getD []).map Hook.read)
      have hvalues := map_placeFirst isUnimatrixHook Hook.value ⟨newValue, some kept⟩
        ((g.hooks.getD []).map Hook.read)
      rw [List.map_map, show Hook.value ∘ Hook.read = id from rfl, List.map_id] at hvalues
      have hne : (placeFirst (fun h => isUnimatrixHook h.value) (⟨newValue, some kept⟩ : Hook)
          ((g.hooks.getD []).map Hook.read)).isEmpty = false :=
        List.isEmpty_eq_false_iff.mpr (placeFirst_ne_nil _)
      simp [pruneGroups, Group.filter, Group.occupied, Group.map, hkept, hne, hvalues]
    · dsimp only
      have hone := hread [g]
      rw [List.map_singleton] at hone
      rw [pruneGroups_cons, List.map_append, ih, hone]

/-! ## All events -/

section Events

variable {source : CommandSource} {events : List Text}

theorem mergeEvent_other (s : Run) {event event' : Text} (h : event' ≠ event) :
    (mergeEvent source s event).hooks.get event' = s.hooks.get event' ∧
      (mergeEvent source s event).keptEntryByEvent.get event' = s.keptEntryByEvent.get event' :=
  ⟨Fields.get_set_of_ne _ _ h, Fields.get_set_of_ne _ _ h⟩

theorem pruneStale_other (s : Run) {event event' : Text} (h : event' ≠ event) :
    (pruneStale s event).hooks.get event' = s.hooks.get event' := by
  unfold pruneStale
  split
  · rfl
  · exact Fields.get_set_of_ne _ _ h

theorem pruneStale_kept (s : Run) (event : Text) : (pruneStale s event).keptEntryByEvent = s.keptEntryByEvent := by
  unfold pruneStale
  split
  · rfl
  · rfl

theorem pruneUnimatrixEvent_other (s : Run) {event event' : Text} (h : event' ≠ event) :
    (pruneUnimatrixEvent s event).hooks.get event' = s.hooks.get event' := by
  unfold pruneUnimatrixEvent
  split
  · rfl
  · dsimp only
    split
    · rw [Fields.get_erase, if_neg h]
    · exact Fields.get_set_of_ne _ _ h

/-- Steps 3 and 3c at an event. -/
theorem foldl_pruneStale_get (hevents : events.Nodup) (s : Run) (event : Text) :
    (event ∉ events →
      (events.foldl pruneStale (events.foldl (mergeEvent source) s)).hooks.get event = s.hooks.get event) ∧
    (event ∈ events → ∃ kept,
      (events.foldl pruneStale (events.foldl (mergeEvent source) s)).hooks.get event =
        some (pruneGroups (fun hook => !isStale (some kept) hook)
          (units "Removed stale unimatrix hook: " ++ event ++ units " (cross-matcher migration)")
          (mergeIntoGroups event (eventMatcher event) ⟨newHookEntry (source.commandForEvent event), some kept⟩
            ((s.hooks.get event).getD [])).1).1) := by
  obtain ⟨hout3, hin3⟩ := hevents.foldl_at (mergeEvent source)
    (fun s event => (s.hooks.get event, s.keptEntryByEvent.get event))
    (fun s k k' h => Prod.ext (mergeEvent_other s h).1 (mergeEvent_other s h).2) s event
  generalize events.foldl (mergeEvent source) s = s3 at hout3 hin3
  obtain ⟨hout3c, hin3c⟩ := hevents.foldl_at pruneStale
    (fun s event => (s.hooks.get event, s.keptEntryByEvent.get event))
    (fun s k k' h => Prod.ext (pruneStale_other s h) (congrArg (·.get k') (pruneStale_kept s k))) s3 event
  generalize events.foldl pruneStale s3 = s3c at hout3c hin3c
  constructor
  · intro hmem
    have h3c := hout3c hmem
    have h3 := hout3 hmem
    simp only [Prod.mk.injEq] at h3c h3
    rw [h3c.1, h3.1]
  · intro hmem
    obtain ⟨m, hm, h3⟩ := hin3 hmem
    obtain ⟨m', hm', h3c⟩ := hin3c hmem
    simp only [Prod.mk.injEq] at hm h3 hm' h3c
    have hgroups : m'.hooks.get event = some (mergeIntoGroups event (eventMatcher event)
        ⟨newHookEntry (source.commandForEvent event), some m.created⟩ ((s.hooks.get event).getD [])).1 := by
      rw [hm'.1, h3.1, ← hm.1]
      exact Fields.get_set_self _ _ _
    have hkept : m'.keptEntryByEvent.get event = some m.created := by
      rw [hm'.2, h3.2]
      exact Fields.get_set_self _ _ _
    refine ⟨m.created, ?_⟩
    rw [h3c.1]
    unfold pruneStale
    rw [hgroups, hkept]
    exact Fields.get_set_self _ _ _

/-- Step 3b at an event it is for, as values. -/
theorem pruneUnimatrixEvent_get {s : Run} {event : Text} {groups : Option (List (Group JsValue))}
    (h : s.hooks.get event = groups.map (List.map (Group.map Hook.read))) :
    ((pruneUnimatrixEvent s event).hooks.get event).map (List.map (Group.map Hook.value)) =
      groups.bind fun groups =>
        if (clear isUnimatrixHook groups).isEmpty then none else some (clear isUnimatrixHook groups) := by
  unfold pruneUnimatrixEvent
  cases groups with
  | none =>
    rw [Option.map_none] at h
    rw [h]
    dsimp only
    rw [h]
    rfl
  | some groups =>
    rw [Option.map_some] at h
    rw [h, Option.bind_some]
    dsimp only
    have hvalues := pruneGroups_read (fun hook => !isUnimatrixHook hook.value) (fun _ => rfl)
      (units "Removed unimatrix hook: " ++ event ++ units " (opt-out)") groups
    rw [← hvalues, List.isEmpty_map]
    split
    · rw [Fields.get_erase, if_pos rfl]
      rfl
    · rw [Fields.get_set_self, Option.map_some]

/-- What an event has after the merge, as values. -/
def merged (source : CommandSource) (events : List Text) (hooks : Fields Text (List (Group JsValue)))
    (event : Text) : Option (List (Group JsValue)) :=
  if event ∈ events then
    some (settle isUnimatrixHook (eventMatcher event) (newHookEntry (source.commandForEvent event))
      ((hooks.get event).getD []))
  else if event ∈ hookEvents then
    (hooks.get event).bind fun groups =>
      if (clear isUnimatrixHook groups).isEmpty then none else some (clear isUnimatrixHook groups)
  else hooks.get event

/-- **The run is the merge of each event.** -/
theorem mergeEvents_get (source : CommandSource) (hevents : events.Nodup) (hooks : Fields Text (List (Group JsValue)))
    (actions : List Text) (event : Text) :
    ((mergeEvents source events hooks actions).hooks.map (List.map (Group.map Hook.value))).get event =
      merged source events hooks event := by
  have hdistinct : hookEvents.Nodup := by decide
  rw [Fields.get_map]
  unfold mergeEvents merged
  dsimp only
  generalize hfile : (⟨hooks.map (List.map (Group.map Hook.read)), .empty, 0, actions⟩ : Run) = file
  have hread : file.hooks.get event = (hooks.get event).map (List.map (Group.map Hook.read)) := by
    rw [← hfile]
    exact Fields.get_map _ _ _
  obtain ⟨hother, hmanaged⟩ := foldl_pruneStale_get hevents file event
  generalize events.foldl pruneStale (events.foldl (mergeEvent source) file) = s at hother hmanaged
  obtain ⟨hkeep, hprune⟩ := (hdistinct.filter fun event => !events.contains event).foldl_at pruneUnimatrixEvent
    (fun s event => s.hooks.get event) (fun s k k' h => pruneUnimatrixEvent_other s h) s event
  by_cases hmem : event ∈ events
  · obtain ⟨kept, hget⟩ := hmanaged hmem
    have hgroups : (file.hooks.get event).getD [] =
        ((hooks.get event).getD []).map (Group.map Hook.read) := by
      rw [hread]
      cases hooks.get event with
      | none => rfl
      | some groups => rfl
    rw [if_pos hmem, hkeep (by simp [hmem]), hget, Option.map_some, hgroups, settle_of_steps]
  · have hsame := (hother hmem).trans hread
    rw [if_neg hmem]
    split
    · rename_i hhook
      obtain ⟨m, hm, hget⟩ := hprune (by simp [hmem, hhook])
      rw [hget]
      exact pruneUnimatrixEvent_get (hm.trans hsame)
    · rename_i hhook
      rw [hkeep (by simp [hhook]), hsame, Option.map_map]
      cases hooks.get event with
      | none => rfl
      | some groups => exact congrArg some (map_map_value_read groups)

/-! ## Merging twice -/

theorem names_foldl_mergeEvent {es : List Text} {s : Run} (h : ∀ event ∈ es, event ∈ s.hooks.names) :
    (es.foldl (mergeEvent source) s).hooks.names = s.hooks.names := by
  induction es generalizing s with
  | nil => rfl
  | cons event es ih =>
    obtain ⟨hevent, hes⟩ := List.forall_mem_cons.mp h
    have hstep : (mergeEvent source s event).hooks.names = s.hooks.names := by
      unfold mergeEvent
      exact (Fields.names_set _ _ _).trans (if_pos hevent)
    rw [List.foldl_cons, ih (hstep ▸ hes), hstep]

theorem names_foldl_pruneStale (es : List Text) (s : Run) :
    (es.foldl pruneStale s).hooks.names = s.hooks.names := by
  induction es generalizing s with
  | nil => rfl
  | cons event es ih =>
    rw [List.foldl_cons, ih]
    unfold pruneStale
    split
    · rfl
    · rename_i groups hget
      exact Fields.names_set_of_get hget _

theorem names_foldl_pruneUnimatrixEvent (es : List Text) (s : Run) :
    (es.foldl pruneUnimatrixEvent s).hooks.names.Sublist s.hooks.names := by
  induction es generalizing s with
  | nil => exact List.Sublist.refl _
  | cons event es ih =>
    rw [List.foldl_cons]
    refine (ih _).trans ?_
    unfold pruneUnimatrixEvent
    split
    · exact List.Sublist.refl _
    · rename_i groups hget
      dsimp only
      split
      · exact Fields.names_erase_sublist _ _
      · rw [Fields.names_set_of_get hget]

/-- Where all managed events are there, names only go. -/
theorem names_mergeEvents {hooks : Fields Text (List (Group JsValue))}
    (hnames : ∀ event ∈ events, event ∈ hooks.names) (actions : List Text) :
    (mergeEvents source events hooks actions).hooks.names.Sublist hooks.names := by
  unfold mergeEvents
  dsimp only
  refine (names_foldl_pruneUnimatrixEvent _ _).trans ?_
  have hread : ∀ event ∈ events, event ∈ (hooks.map (List.map (Group.map Hook.read))).names := by
    rwa [Fields.names_map]
  rw [names_foldl_pruneStale, names_foldl_mergeEvent hread, Fields.names_map]

theorem merged_merged (hrecognised : ∀ event, isUnimatrixHook (newHookEntry (source.commandForEvent event)) = true)
    {hooks hooks' : Fields Text (List (Group JsValue))}
    (h : ∀ event, hooks'.get event = merged source events hooks event) (event : Text) :
    merged source events hooks' event = hooks'.get event := by
  rw [h]
  unfold merged
  rw [h]
  unfold merged
  split
  · rw [Option.getD_some, settle_settle (hrecognised event)]
  · split
    · cases hooks.get event with
      | none => rfl
      | some groups =>
        rw [Option.bind_some]
        split
        · rfl
        · rename_i hleft
          rw [Option.bind_some, clear_clear, if_neg hleft]
    · rfl

/-- **A second merge changes nothing.** -/
theorem mergeEvents_again (hevents : events.Nodup)
    (hrecognised : ∀ event, isUnimatrixHook (newHookEntry (source.commandForEvent event)) = true)
    {hooks hooks' : Fields Text (List (Group JsValue))}
    (h : ∀ event, hooks'.get event = merged source events hooks event) (actions : List Text) :
    (mergeEvents source events hooks' actions).hooks.map (List.map (Group.map Hook.value)) = hooks' := by
  have hget : ∀ event, ((mergeEvents source events hooks' actions).hooks.map
      (List.map (Group.map Hook.value))).get event = hooks'.get event := fun event => by
    rw [mergeEvents_get source hevents, merged_merged hrecognised h]
  have hmanaged : ∀ event ∈ events, event ∈ hooks'.names := by
    intro event hevent
    have := h event
    unfold merged at this
    rw [if_pos hevent] at this
    exact Fields.mem_names this
  refine Fields.ext_get ?_ hget
  rw [Fields.names_map]
  refine (names_mergeEvents hmanaged actions).eq_of_length_le (hooks'.nodup.subperm ?_).length_le
  intro event hevent
  -- an event that is there is there still
  by_contra hgone
  have hnone := hget event
  rw [Fields.get_eq_none.mpr (by rwa [Fields.names_map])] at hnone
  exact Fields.get_eq_none.mp hnone.symm hevent

end Events

/-! ## The built-in sources -/

/-- The two built-in forms of a command source: a binary, and a client. -/
inductive BuiltIn : Text ⊕ CommandSource → Prop where
  | binary (dir name : Text) (hname : name = units "unimatrix" ∨ name = units "unimatrix-server") :
    BuiltIn (.inl (dir ++ units "/" ++ name))
  | client (dir : Text) (hdir : dir ≠ []) (hquote : unit '"' ∉ dir) :
    BuiltIn (.inr (clientSource (dir ++ units "/hook-client/index.js")))

theorem registeredEvents_nodup {commandSource : Text ⊕ CommandSource} (h : BuiltIn commandSource)
    (optIn : Option JsValue) : (registeredEvents (normalizeCommandSource commandSource) optIn).Nodup := by
  have hevents : (normalizeCommandSource commandSource).events.Nodup := by
    cases h <;> exact (by decide : hookEvents.Nodup)
  unfold registeredEvents
  split
  · exact hevents.filter _
  · exact hevents

theorem isUnimatrixHook_newHookEntry {command : Text} {test : Text → Bool} (hne : command ≠ [])
    (htest : test ∈ unimatrixPatterns) (h : test command = true) :
    isUnimatrixHook (newHookEntry command) = true := by
  have hget : (newHookEntry command).get (units "command") = some (.string command) := rfl
  unfold isUnimatrixHook
  rw [hget]
  dsimp only
  rw [Bool.and_eq_true, List.any_eq_true]
  exact ⟨by simpa using hne, test, htest, h⟩

theorem mem_hookPattern {name : Text} : name ++ units " hook " ∈ (hookPattern name).language := by
  have hsplit : name ++ units " hook " = name ++ (units " " ++ (units "hook" ++ units " ")) := rfl
  rw [hsplit]
  exact Pattern.append_mem_seq (Pattern.mem_word name) (Pattern.append_mem_seq
    (Pattern.mem_plus_letter (by decide) (forall_mem_of_all (by decide))) (Pattern.append_mem_seq (Pattern.mem_word _)
      (Pattern.mem_letter (by decide))))

theorem mem_nodePattern {client : Text}
    (h : client ∈ (quotedClient (unit '"')).language ∨ client ∈ bareClient.language) :
    units "node " ++ client ++ units " " ∈ nodePattern.language := by
  have hsplit : units "node " ++ client ++ units " " =
      units "node" ++ ([] ++ (units " " ++ (client ++ units " "))) := by
    simp only [List.nil_append, ← List.append_assoc]
    rfl
  rw [hsplit]
  refine Pattern.append_mem_seq (Pattern.mem_word _) (Pattern.append_mem_seq (Pattern.nil_mem_optional _)
    (Pattern.append_mem_seq (Pattern.mem_plus_letter (by decide) (forall_mem_of_all (by decide)))
      (Pattern.append_mem_seq ?_ (Pattern.mem_letter (by decide)))))
  exact Pattern.mem_alt.mpr (h.imp_right fun h => Pattern.mem_alt.mpr (.inr h))

theorem mem_clientFile : units "/hook-client/index.js" ∈ clientFile.language := by
  have hsplit : units "/hook-client/index.js" =
      units "/" ++ (units "hook-client" ++ (units "/" ++ units "index.js")) := rfl
  rw [hsplit]
  exact Pattern.append_mem_seq (Pattern.mem_letter (by decide)) (Pattern.append_mem_seq (Pattern.mem_word _)
    (Pattern.append_mem_seq (Pattern.mem_letter (by decide)) (Pattern.mem_word _)))

/-- The command of a binary has its name and `hook`. -/
theorem search_binaryCommand (dir name event : Text) :
    (hookPattern (units "/" ++ name)).search
      ((normalizeCommandSource (.inl (dir ++ units "/" ++ name))).commandForEvent event) = true := by
  refine Pattern.search_iff.mpr ⟨units "LD_LIBRARY_PATH=" ++ dirname (dir ++ units "/" ++ name) ++ units " " ++ dir,
    _, event, ?_, mem_hookPattern⟩
  unfold normalizeCommandSource
  simp only [List.append_assoc]

/-- A command that runs a client file with node is recognised. -/
theorem isUnimatrixHook_node {client : Text}
    (hclient : client ∈ (quotedClient (unit '"')).language ∨ client ∈ bareClient.language) (event : Text) :
    isUnimatrixHook (newHookEntry (units "node " ++ client ++ units " " ++ event)) = true := by
  refine isUnimatrixHook_newHookEntry (List.cons_ne_nil _ _) (List.mem_cons_of_mem _ (List.mem_cons_of_mem _
    (List.mem_cons_of_mem _ (List.mem_cons_of_mem _ List.mem_cons_self)))) ?_
  rw [Bool.or_eq_true]
  exact .inl (Pattern.matchPrefix_iff.mpr ⟨_, event, rfl, mem_nodePattern hclient⟩)

/-- **The commands of the built-in sources are recognised.** -/
theorem isUnimatrixHook_builtIn {commandSource : Text ⊕ CommandSource} (h : BuiltIn commandSource) (event : Text) :
    isUnimatrixHook (newHookEntry ((normalizeCommandSource commandSource).commandForEvent event)) = true := by
  cases h with
  | binary dir name hname =>
    have hne : (normalizeCommandSource (.inl (dir ++ units "/" ++ name))).commandForEvent event ≠ [] :=
      List.cons_ne_nil _ _
    rcases hname with rfl | rfl
    · exact isUnimatrixHook_newHookEntry hne (List.mem_cons_of_mem _ (List.mem_cons_of_mem _ List.mem_cons_self))
        (search_binaryCommand dir (units "unimatrix") event)
    · exact isUnimatrixHook_newHookEntry hne (List.mem_cons_of_mem _ (List.mem_cons_of_mem _
        (List.mem_cons_of_mem _ List.mem_cons_self))) (search_binaryCommand dir (units "unimatrix-server") event)
  | client dir hdir hquote =>
    change isUnimatrixHook (newHookEntry
      (buildHookClientCommand (dir ++ units "/hook-client/index.js") event none)) = true
    unfold buildHookClientCommand
    dsimp only
    split
    · refine isUnimatrixHook_node (.inl ?_) event
      have hsplit : units "\"" ++ (dir ++ units "/hook-client/index.js") ++ units "\"" =
          units "\"" ++ (dir ++ (units "/hook-client/index.js" ++ units "\"")) := by
        simp only [List.append_assoc]
      rw [hsplit]
      refine Pattern.append_mem_seq (Pattern.mem_word _) (Pattern.append_mem_seq
        (Pattern.mem_star_letter fun c hc => ?_) (Pattern.append_mem_seq mem_clientFile (Pattern.mem_word _)))
      rw [bne_iff_ne]
      rintro rfl
      exact hquote hc
    · rename_i hbare
      refine isUnimatrixHook_node (.inr (Pattern.append_mem_seq
        (Pattern.mem_plus_letter hdir fun c hc => ?_) mem_clientFile)) event
      rw [Bool.not_eq_true']
      by_contra hspace
      exact hbare (List.any_eq_true.mpr ⟨c, List.mem_append_left _ hc, by simpa using hspace⟩)

/-! ## The merge -/

/-- The entries of some kind that the settings have for an event, each with the matcher of its group. -/
def Settings.entriesBy (p : JsValue → Bool) (content : Settings) (event : Text) : List (Option JsValue × JsValue) :=
  match content.hooks with
  | .object hooks => MergeSettings.entriesBy p ((hooks.get event).getD [])
  | _ => []

/-- What a merge is to leave: foreign entries as they were, for a managed event one recognised entry, which is the new one
and stands under the event's matcher, for an event that is not managed none, and all other keys. -/
structure Merged (source : CommandSource) (events : List Text) (before after : Settings) : Prop where
  foreign : ∀ event, after.entriesBy (fun hook => !isUnimatrixHook hook) event =
    before.entriesBy (fun hook => !isUnimatrixHook hook) event
  managed : ∀ event ∈ events, after.entriesBy isUnimatrixHook event =
    [((eventMatcher event).map .string, newHookEntry (source.commandForEvent event))]
  unmanaged : ∀ event ∈ hookEvents, event ∉ events → after.entriesBy isUnimatrixHook event = []
  others : after.others = before.others

theorem merged_of_get {source : CommandSource} {events : List Text}
    (hrecognised : ∀ event, isUnimatrixHook (newHookEntry (source.commandForEvent event)) = true)
    {before after : Settings} {hooks hooks' : Fields Text (List (Group JsValue))}
    (hbefore : ∀ p event, before.entriesBy p event = entriesBy p ((hooks.get event).getD []))
    (hafter : after.hooks = .object hooks') (hget : ∀ event, hooks'.get event = merged source events hooks event)
    (hothers : after.others = before.others) : Merged source events before after := by
  have hentries : ∀ p event, after.entriesBy p event =
      entriesBy p ((merged source events hooks event).getD []) := by
    intro p event
    unfold Settings.entriesBy
    rw [hafter]
    dsimp only
    rw [hget]
  have hcleared : ∀ (p : JsValue → Bool) (gs : Option (List (Group JsValue))),
      entriesBy p ((gs.bind fun groups => if (clear isUnimatrixHook groups).isEmpty then none
        else some (clear isUnimatrixHook groups)).getD []) =
        entriesBy (fun h => !isUnimatrixHook h && p h) (gs.getD []) := by
    intro p gs
    cases gs with
    | none => rfl
    | some groups =>
      rw [Option.bind_some, Option.getD_some, ← entriesBy_clear]
      split
      · rename_i hempty
        rw [List.isEmpty_iff.mp hempty]
        rfl
      · rfl
  refine ⟨fun event => ?_, fun event hevent => ?_, fun event hhook hevent => ?_, hothers⟩
  · rw [hentries, hbefore]
    unfold merged
    split
    · exact (entriesBy_settle (hrecognised event) _ _).2
    · split
      · rw [hcleared]
        simp only [Bool.and_self]
      · rfl
  · rw [hentries]
    unfold merged
    rw [if_pos hevent]
    exact (entriesBy_settle (hrecognised event) _ _).1
  · rw [hentries]
    unfold merged
    rw [if_neg hevent, if_pos hhook, hcleared]
    simp [entriesBy]

theorem readHooks_ok (filePath : Text) {content : Settings} (h : content.hooks ≠ .other) :
    ∃ hooks, readHooks filePath content.hooks = .ok hooks ∧
      ∀ p event, content.entriesBy p event = entriesBy p ((hooks.get event).getD []) := by
  unfold Settings.entriesBy
  cases hcontent : content.hooks with
  | falsy => exact ⟨.empty, rfl, fun _ _ => rfl⟩
  | object hooks => exact ⟨hooks, rfl, fun _ _ => rfl⟩
  | other => exact absurd hcontent h

theorem content_hooks (filePath : Text) {content : Settings} {hooks : Fields Text (List (Group JsValue))}
    (h : content.hooks = .object hooks) : readHooks filePath content.hooks = .ok hooks := by
  rw [h]
  rfl

/-- The settings that are returned. -/
theorem mergeSettings_content {filePath : Text} {content : Settings}
    {hooks : Fields Text (List (Group JsValue))} (hread : readHooks filePath content.hooks = .ok hooks)
    (commandSource : Text ⊕ CommandSource) (optIn : Option JsValue) (dryRun : Bool) :
    ∃ result, mergeSettings filePath (.parsed content) commandSource optIn dryRun = .ok result ∧
      result.content = ⟨.object ((mergeEvents (normalizeCommandSource commandSource)
        (registeredEvents (normalizeCommandSource commandSource) optIn) hooks []).hooks.map
          (List.map (Group.map Hook.value))), content.others⟩ := by
  unfold mergeSettings
  simp only [readSettings, hread, bind, Except.bind]
  exact ⟨_, rfl, rfl⟩

/-- **A merge leaves one entry for every managed event and all foreign ones, and another merge changes nothing**, whatever
the settings were, those a merge of the other form left among them. -/
theorem mergeSettings_merged (filePath : Text) (commandSource : Text ⊕ CommandSource) (optIn : Option JsValue)
    (dryRun : Bool) (content : Settings) (hsource : BuiltIn commandSource) (hhooks : content.hooks ≠ .other) :
    ∃ result, mergeSettings filePath (.parsed content) commandSource optIn dryRun = .ok result ∧
      Merged (normalizeCommandSource commandSource)
        (registeredEvents (normalizeCommandSource commandSource) optIn) content result.content ∧
      ∃ again, mergeSettings filePath (.parsed result.content) commandSource optIn dryRun = .ok again ∧
        again.content = result.content := by
  have hrecognised := isUnimatrixHook_builtIn hsource
  have hevents := registeredEvents_nodup hsource optIn
  obtain ⟨hooks, hread, hbefore⟩ := readHooks_ok filePath hhooks
  have hget := mergeEvents_get (normalizeCommandSource commandSource) hevents hooks []
  obtain ⟨result, hresult, hcontent⟩ := mergeSettings_content hread commandSource optIn dryRun
  have hobject := congrArg Settings.hooks hcontent
  refine ⟨result, hresult, merged_of_get hrecognised hbefore hobject hget (by rw [hcontent]), ?_⟩
  obtain ⟨again, hagain, hsame⟩ := mergeSettings_content (content_hooks filePath hobject) commandSource optIn dryRun
  refine ⟨again, hagain, hsame.trans ?_⟩
  rw [mergeEvents_again hevents hrecognised hget, hcontent]

/-- A foreign entry and two stale ones under another matcher, and a client path with a space. -/
theorem mergeSettings_merged_stale :
    ∃ result, mergeSettings (units "/p/.claude/settings.json") (.parsed ⟨.object ⟨[(units "Stop",
      [⟨some (.string (units "*")), some [newHookEntry (units "unimatrix hook Stop"), newHookEntry (units "make"),
        newHookEntry (units "unimatrix-server hook Stop")], []⟩])], by decide⟩, [(units "model", .null)]⟩)
      (.inr (clientSource (units "/my dir" ++ units "/hook-client/index.js"))) none false = .ok result ∧
      Merged (clientSource (units "/my dir" ++ units "/hook-client/index.js"))
        (registeredEvents (clientSource (units "/my dir" ++ units "/hook-client/index.js")) none)
        ⟨.object ⟨[(units "Stop", [⟨some (.string (units "*")), some [newHookEntry (units "unimatrix hook Stop"),
          newHookEntry (units "make"), newHookEntry (units "unimatrix-server hook Stop")], []⟩])], by decide⟩,
            [(units "model", .null)]⟩ result.content ∧
      ∃ again, mergeSettings (units "/p/.claude/settings.json") (.parsed result.content)
        (.inr (clientSource (units "/my dir" ++ units "/hook-client/index.js"))) none false = .ok again ∧
        again.content = result.content :=
  mergeSettings_merged (units "/p/.claude/settings.json")
    (.inr (clientSource (units "/my dir" ++ units "/hook-client/index.js"))) none false _
    (.client (units "/my dir") (by decide) (by decide)) (fun h => by cases h)

end Unimatrix.MergeSettings
