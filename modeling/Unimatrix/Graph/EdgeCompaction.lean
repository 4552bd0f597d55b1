import Unimatrix.Graph.EdgeWrite
import Unimatrix.Store.Lineage

/-!
# Compaction of orphaned edges

Model of `run_orphaned_edge_compaction` and `repoint_deprecated_target_edges` of `background.rs`. All statements succeed
and nothing else writes.

* The candidates are read up front, in an order `scan` of the table, and repointed one after the other.
* The terminal of a target is `query_current_terminal`'s; `o` orders the entries it reads.
* An edge is live if both its endpoints are Active, and `Recoverable` says which edges have to survive, in terms of
  the `superseded_by` links and not of the query.

A repoint only deletes edges at a Deprecated target, so it touches no live edge, those of earlier repoints included
(`Repointed`). **`orphanedEdgeCompaction_recovers`** is what is left after the `DELETE`.
-/

namespace Unimatrix

open Rows Digraph

/-! ## The compaction -/

/-- The `WHERE` of the candidate scan. -/
def repointCandidate (s : Store) (r : EdgeKey × EdgeColumns) : Bool :=
  r.2.source == edgeSourceAgent &&
    (s.entries.lookup r.1.targetId).any (fun te => te.status == .deprecated && te.supersededBy.isSome) &&
    s.hasStatus .active r.1.sourceId

/-- One pass of the loop of `repoint_deprecated_target_edges`. -/
def repointEdge (s : Store) (o : HashMap.IterOrder Nat EntryRow) (t : EdgeRows)
    (r : EdgeKey × EdgeColumns) : EdgeRows :=
  match s.queryCurrentTerminal o r.1.targetId with
  | none => t
  | some terminal =>
    if terminal.id = r.1.sourceId then t
    else redirectGraphEdge t r.1.sourceId r.1.targetId terminal.id r.1.relationType r.2.createdAt

/-- `repoint_deprecated_target_edges`. -/
def repointDeprecatedTargetEdges (s : Store) (o : HashMap.IterOrder Nat EntryRow) (scan : TableOrder)
    (t : EdgeRows) : EdgeRows :=
  (scan.arrange (t.filter (repointCandidate s))).foldl (repointEdge s o) t

/-- `run_orphaned_edge_compaction`. -/
def runOrphanedEdgeCompaction (s : Store) (o : HashMap.IterOrder Nat EntryRow) (scan : TableOrder)
    (t : EdgeRows) : EdgeRows :=
  delete (repointDeprecatedTargetEdges s o scan t) fun r =>
    !s.hasStatus .active r.1.sourceId || !s.hasStatus .active r.1.targetId

/-! ## What has to survive -/

/-- Both endpoints are Active. -/
def Live (s : Store) (k : EdgeKey) : Prop :=
  s.hasStatus .active k.sourceId = true ∧ s.hasStatus .active k.targetId = true

/-- An agent's edge from an Active entry to a superseded Deprecated one, whose Active terminal is `u`. -/
structure Recoverable (s : Store) (r : EdgeKey × EdgeColumns) (u : Nat) : Prop where
  agent : r.2.source = edgeSourceAgent
  source : s.hasStatus .active r.1.sourceId = true
  target : ∃ te, s.entries.lookup r.1.targetId = some te ∧ te.status = .deprecated ∧
    te.supersededBy.isSome = true
  terminal : s.Terminal u
  within : ∃ m ≤ 50, Walk s.Followed r.1.targetId m u
  other : u ≠ r.1.sourceId

theorem repointCandidate_iff {s : Store} {r : EdgeKey × EdgeColumns} :
    repointCandidate s r = true ↔ r.2.source = edgeSourceAgent ∧
      (∃ te, s.entries.lookup r.1.targetId = some te ∧ te.status = .deprecated ∧
        te.supersededBy.isSome = true) ∧ s.hasStatus .active r.1.sourceId = true := by
  unfold repointCandidate
  simp only [Bool.and_eq_true, beq_iff_eq, Option.any_eq_true, and_assoc]

theorem Recoverable.candidate {s : Store} {r : EdgeKey × EdgeColumns} {u : Nat}
    (h : Recoverable s r u) : repointCandidate s r = true :=
  repointCandidate_iff.mpr ⟨h.agent, h.target, h.source⟩

/-- The target of a candidate is not Active. -/
theorem candidate_target {s : Store} {r : EdgeKey × EdgeColumns} (h : repointCandidate s r = true) :
    s.hasStatus .active r.1.targetId = false := by
  obtain ⟨-, ⟨te, hl, hdep, -⟩, -⟩ := repointCandidate_iff.mp h
  rw [Store.hasStatus_of_lookup hl, hdep]
  rfl

theorem terminal_active {s : Store} {u : Nat} (h : s.Terminal u) : s.hasStatus .active u = true := by
  obtain ⟨e, hfind, -⟩ := id h
  obtain ⟨row, hl, rfl⟩ := Option.map_eq_some_iff.mp hfind
  rw [Store.hasStatus_of_lookup hl, decide_eq_true_eq]
  exact ((Store.terminal_of_find hfind).mp h).2

/-- The edge has one terminal to go to. -/
theorem Recoverable.unique {s : Store} {r : EdgeKey × EdgeColumns} {u u' : Nat}
    (h : Recoverable s r u) (h' : Recoverable s r u') : u = u' := by
  obtain ⟨m, -, hw⟩ := h.within
  obtain ⟨m', -, hw'⟩ := h'.within
  exact (Store.terminal_unique h.terminal h'.terminal hw hw').2

/-- The keys of a recovered edge are live. -/
theorem Recoverable.live {s : Store} {r : EdgeKey × EdgeColumns} {u : Nat} (h : Recoverable s r u)
    {k : EdgeKey} (hk : k ∈ directions r.1.sourceId u r.1.relationType) : Live s k := by
  have hu := terminal_active h.terminal
  rcases mem_directions.mp hk with rfl | ⟨-, rfl⟩
  · exact ⟨h.source, hu⟩
  · exact ⟨hu, h.source⟩

/-! ## One repoint -/

/-- The row of a recovered edge. -/
def Recovered (s : Store) (c r : EdgeKey × EdgeColumns) : Prop :=
  ∃ u, Recoverable s c u ∧ r.1 ∈ directions c.1.sourceId u c.1.relationType ∧
    r.2 = agentColumns c.2.createdAt

/-- A candidate is redirected to the terminal it can go to, or left alone if there is none. -/
theorem repointEdge_cases {s : Store} {r : EdgeKey × EdgeColumns} (h : repointCandidate s r = true)
    (o : HashMap.IterOrder Nat EntryRow) (t : EdgeRows) :
    (∃ u, Recoverable s r u ∧ repointEdge s o t r =
      redirectGraphEdge t r.1.sourceId r.1.targetId u r.1.relationType r.2.createdAt) ∨
    (repointEdge s o t r = t ∧ ∀ u, ¬ Recoverable s r u) := by
  obtain ⟨hagent, htarget, hsource⟩ := repointCandidate_iff.mp h
  unfold repointEdge
  cases hq : s.queryCurrentTerminal o r.1.targetId with
  | none =>
    refine .inr ⟨rfl, fun u hu => ?_⟩
    obtain ⟨e, hfind, hcur⟩ := id hu.terminal
    obtain rfl := Store.id_of_find hfind
    rw [Store.queryCurrentTerminal_eq_some.mpr ⟨⟨hfind, hcur⟩, hu.within⟩] at hq
    cases hq
  | some e =>
    obtain ⟨⟨hfind, hcur⟩, hwithin⟩ := Store.queryCurrentTerminal_eq_some.mp hq
    dsimp only
    by_cases hself : e.id = r.1.sourceId
    · rw [if_pos hself]
      refine .inr ⟨rfl, fun u hu => hu.other ?_⟩
      obtain ⟨m, -, hw⟩ := hu.within
      obtain ⟨m', -, hw'⟩ := hwithin
      exact (Store.terminal_unique hu.terminal ⟨e, hfind, hcur⟩ hw hw').2.trans hself
    · rw [if_neg hself]
      exact .inl ⟨e.id, ⟨hagent, hsource, htarget, ⟨e, hfind, hcur⟩, hwithin, hself⟩, rfl⟩

/-- A redirect away from an entry that is not Active keeps the live edges. -/
theorem redirectGraphEdge_keeps {s : Store} {t : EdgeRows} {a b c : Nat} {relationType : String}
    {createdAt : Int} {r : EdgeKey × EdgeColumns} (hb : s.hasStatus .active b = false) (hr : r ∈ t)
    (hlive : Live s r.1) : r ∈ redirectGraphEdge t a b c relationType createdAt := by
  refine (redirectGraphEdge_redirected t a b c relationType createdAt).kept r hr fun hold => ?_
  rcases mem_directions.mp hold with he | ⟨-, he⟩
  · rw [he] at hlive
    exact Bool.false_ne_true (hb.symm.trans hlive.2)
  · rw [he] at hlive
    exact Bool.false_ne_true (hb.symm.trans hlive.1)

/-! ## The loop -/

/-- The rows after some candidates `done` of the table `t`. -/
structure Repointed (s : Store) (t : EdgeRows) (done : List (EdgeKey × EdgeColumns)) (t' : EdgeRows) :
    Prop where
  kept : ∀ r ∈ t, Live s r.1 → r ∈ t'
  nothingElse : ∀ r ∈ t', r ∈ t ∨ ∃ c ∈ done, Recovered s c r
  recovered : ∀ c ∈ done, ∀ u, Recoverable s c u →
    ∀ k ∈ directions c.1.sourceId u c.1.relationType, k ∈ keys t'
  unique : (keys t).Nodup → (keys t').Nodup

theorem Repointed.start (s : Store) (t : EdgeRows) : Repointed s t [] t where
  kept := fun _ hr _ => hr
  nothingElse := fun _ hr => .inl hr
  recovered := fun _ hc => absurd hc List.not_mem_nil
  unique := id

theorem Repointed.skip {s : Store} {t t' : EdgeRows} {done : List (EdgeKey × EdgeColumns)}
    (h : Repointed s t done t') {c : EdgeKey × EdgeColumns} (hc : ∀ u, ¬ Recoverable s c u) :
    Repointed s t (c :: done) t' where
  kept := h.kept
  nothingElse := fun r hr => (h.nothingElse r hr).imp_right fun ⟨c', hc', hrec⟩ =>
    ⟨c', List.mem_cons_of_mem _ hc', hrec⟩
  recovered := fun c' hc' u hu => by
    rcases List.mem_cons.mp hc' with rfl | hc'
    · exact absurd hu (hc u)
    · exact h.recovered c' hc' u hu
  unique := h.unique

theorem Repointed.redirect {s : Store} {t t' : EdgeRows} {done : List (EdgeKey × EdgeColumns)}
    (h : Repointed s t done t') {c : EdgeKey × EdgeColumns} {u : Nat} (hc : Recoverable s c u) :
    Repointed s t (c :: done) (redirectGraphEdge t' c.1.sourceId c.1.targetId u c.1.relationType
      c.2.createdAt) where
  kept := fun r hr hlive =>
    redirectGraphEdge_keeps (candidate_target hc.candidate) (h.kept r hr hlive) hlive
  nothingElse := fun r hr => by
    rw [redirectGraphEdge_eq, deleteGraphEdge_eq] at hr
    rcases of_mem_addRows hr with hr | ⟨hkey, hcols⟩
    · exact (h.nothingElse r (mem_delete.mp hr).1).imp_right fun ⟨c', hc', hrec⟩ =>
        ⟨c', List.mem_cons_of_mem _ hc', hrec⟩
    · exact .inr ⟨c, List.mem_cons_self, u, hc, hkey, hcols⟩
  recovered := fun c' hc' u' hu' k hk => by
    rcases List.mem_cons.mp hc' with rfl | hc'
    · obtain rfl := hc.unique hu'
      exact (redirectGraphEdge_redirected _ _ _ _ _ _).present k hk
    · obtain ⟨columns, hrow⟩ := Rows.mem_keys.mp (h.recovered c' hc' u' hu' k hk)
      exact Rows.mem_keys.mpr ⟨columns,
        redirectGraphEdge_keeps (candidate_target hc.candidate) hrow (hu'.live hk)⟩
  unique := fun ht => by
    rw [redirectGraphEdge_eq, deleteGraphEdge_eq]
    exact keys_nodup_addRows (keys_nodup_delete (h.unique ht) _) _ _

theorem Repointed.step {s : Store} {t t' : EdgeRows} {done : List (EdgeKey × EdgeColumns)}
    (h : Repointed s t done t') {c : EdgeKey × EdgeColumns} (hc : repointCandidate s c = true)
    (o : HashMap.IterOrder Nat EntryRow) : Repointed s t (c :: done) (repointEdge s o t' c) := by
  rcases repointEdge_cases hc o t' with ⟨u, hu, he⟩ | ⟨he, hnone⟩
  · rw [he]
    exact h.redirect hu
  · rw [he]
    exact h.skip hnone

theorem Repointed.loop {s : Store} {t t' : EdgeRows} {done rows : List (EdgeKey × EdgeColumns)}
    (h : Repointed s t done t') (hrows : ∀ c ∈ rows, repointCandidate s c = true)
    (o : HashMap.IterOrder Nat EntryRow) :
    Repointed s t (rows.reverse ++ done) (rows.foldl (repointEdge s o) t') := by
  induction rows generalizing done t' with
  | nil => exact h
  | cons c rows ih =>
    rw [List.reverse_cons, List.append_assoc]
    exact ih (h.step (hrows c List.mem_cons_self) o) fun c' hc' => hrows c' (List.mem_cons_of_mem _ hc')

/-- What `repoint_deprecated_target_edges` leaves: every candidate is done. -/
theorem repointDeprecatedTargetEdges_repointed (s : Store) (o : HashMap.IterOrder Nat EntryRow)
    (scan : TableOrder) (t : EdgeRows) :
    ∃ done, (∀ c, c ∈ done ↔ c ∈ t ∧ repointCandidate s c = true) ∧
      Repointed s t done (repointDeprecatedTargetEdges s o scan t) := by
  have hmem : ∀ c, c ∈ scan.arrange (t.filter (repointCandidate s)) ↔
      c ∈ t ∧ repointCandidate s c = true := fun c => by
    rw [(scan.perm _).mem_iff, List.mem_filter]
  refine ⟨_, fun c => ?_, (Repointed.start s t).loop (fun c hc => ((hmem c).mp hc).2) o⟩
  rw [List.append_nil, List.mem_reverse, hmem]

/-! ## The whole pass -/

theorem mem_runOrphanedEdgeCompaction {s : Store} {o : HashMap.IterOrder Nat EntryRow}
    {scan : TableOrder} {t : EdgeRows} {r : EdgeKey × EdgeColumns} :
    r ∈ runOrphanedEdgeCompaction s o scan t ↔
      r ∈ repointDeprecatedTargetEdges s o scan t ∧ Live s r.1 := by
  unfold runOrphanedEdgeCompaction Live
  rw [mem_delete, Bool.or_eq_false_iff, Bool.not_eq_false', Bool.not_eq_false']

/-- A table of live edges is left as it is. -/
theorem runOrphanedEdgeCompaction_of_live {s : Store} {t : EdgeRows} (h : ∀ r ∈ t, Live s r.1)
    (o : HashMap.IterOrder Nat EntryRow) (scan : TableOrder) :
    runOrphanedEdgeCompaction s o scan t = t := by
  have hnone : t.filter (repointCandidate s) = [] := by
    refine List.filter_eq_nil_iff.mpr fun r hr hc => ?_
    exact Bool.false_ne_true ((candidate_target hc).symm.trans (h r hr).2)
  have hscan : scan.arrange (t.filter (repointCandidate s)) = [] := by
    rw [hnone]
    exact List.perm_nil.mp (scan.perm [])
  unfold runOrphanedEdgeCompaction repointDeprecatedTargetEdges delete
  rw [hscan]
  refine List.filter_eq_self.mpr fun r hr => ?_
  dsimp only
  rw [(h r hr).1, (h r hr).2]
  rfl

/-- **Compaction keeps what can be recovered.** It leaves live edges only: those that were there, with their columns,
and for every recoverable edge the edge to its terminal, in both directions if it is a `Contradicts` edge. Nothing else
is new, no loop is, no key is there twice, and a second pass changes nothing. -/
theorem orphanedEdgeCompaction_recovers (s : Store) (o : HashMap.IterOrder Nat EntryRow)
    (scan : TableOrder) (t : EdgeRows) :
    let t' := runOrphanedEdgeCompaction s o scan t
    (∀ r ∈ t', Live s r.1) ∧
      (∀ r ∈ t, Live s r.1 → r ∈ t') ∧
      (∀ r ∈ t, ∀ u, Recoverable s r u →
        ∀ k ∈ directions r.1.sourceId u r.1.relationType, k ∈ keys t') ∧
      (∀ r ∈ t', r ∈ t ∨ ∃ c ∈ t, Recovered s c r) ∧
      (∀ k ∈ keys t', k ∉ keys t → k.sourceId ≠ k.targetId) ∧
      ((keys t).Nodup → (keys t').Nodup) ∧
      ∀ (o' : HashMap.IterOrder Nat EntryRow) (scan' : TableOrder),
        runOrphanedEdgeCompaction s o' scan' t' = t' := by
  intro t'
  obtain ⟨done, hdone, h⟩ := repointDeprecatedTargetEdges_repointed s o scan t
  have hlive : ∀ r ∈ t', Live s r.1 := fun r hr => (mem_runOrphanedEdgeCompaction.mp hr).2
  have hnothing : ∀ r ∈ t', r ∈ t ∨ ∃ c ∈ t, Recovered s c r := fun r hr =>
    (h.nothingElse r (mem_runOrphanedEdgeCompaction.mp hr).1).imp_right fun ⟨c, hc, hrec⟩ =>
      ⟨c, ((hdone c).mp hc).1, hrec⟩
  refine ⟨hlive, fun r hr hl => ?_, fun r hr u hu k hk => ?_, hnothing, fun k hk hnew => ?_,
    fun ht => keys_nodup_delete (h.unique ht) _,
    fun o' scan' => runOrphanedEdgeCompaction_of_live hlive o' scan'⟩
  · exact mem_runOrphanedEdgeCompaction.mpr ⟨h.kept r hr hl, hl⟩
  · obtain ⟨columns, hrow⟩ := Rows.mem_keys.mp
      (h.recovered r ((hdone r).mpr ⟨hr, hu.candidate⟩) u hu k hk)
    exact Rows.mem_keys.mpr ⟨columns, mem_runOrphanedEdgeCompaction.mpr ⟨hrow, hu.live hk⟩⟩
  · obtain ⟨columns, hrow⟩ := Rows.mem_keys.mp hk
    rcases hnothing _ hrow with hold | ⟨c, -, u, hu, hkey, -⟩
    · exact absurd (Rows.mem_keys.mpr ⟨columns, hold⟩) hnew
    · exact directions_loopless hu.other.symm hkey

end Unimatrix
