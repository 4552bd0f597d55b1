import Unimatrix.Distill.Loss
import Unimatrix.Lib.Budget

/-!
# Candidates of a ring tail

Of a transcript whose front was cut off the bytes from `p` on are left. A byte that is cut off takes the block of a line
with it if the line begins there, and no other (`blocks_cons`), as long as the rest of a line is no record
(`WholeRecords`).

**`select_ring_tail`**: what is left has the candidates that begin at `p` or later, in the same order and with the same
offsets; a cap keeps the longest prefix of them that fits.
-/

namespace Unimatrix.Distill

open Json TranscriptBlock

/-- No proper suffix of a line parses as a `user` or `assistant` record. -/
def WholeRecords (crates : Crates) (bytes : List UInt8) : Prop :=
  ∀ line ∈ bytes.splitOn (byte '\n'), ∀ s, s <:+ line → s ≠ line →
    ∀ record, (ofUtf8 s).bind (parse (rust crates.inRange).dialect) = some record → recordRole record = none

/-! ## Offsets -/

/-- The blocks of some lines, of which the first begins at `offset`. -/
def blocks (crates : Crates) (offset : Nat) (lines : List (List UInt8)) : List ParsedBlock :=
  (parseLines crates offset lines).1

variable {crates : Crates}

theorem blocks_cons_line (offset : Nat) (line : List UInt8) (lines : List (List UInt8)) :
    blocks crates offset (line :: lines) =
      (parseLine crates line offset).1.toList ++ blocks crates (offset + line.length + 1) lines := rfl

/-- A block has the offset of its line, and nothing else of it depends on the offset. -/
theorem parseLine_content (crates : Crates) (line : List UInt8) :
    ∃ content : Option (Role × Str × Option Str), ∀ offset,
      (parseLine crates line offset).1 = content.map fun c => ⟨c.1, c.2.1, c.2.2, offset⟩ := by
  unfold parseLine
  split
  · exact ⟨none, fun _ => rfl⟩
  split
  · exact ⟨none, fun _ => rfl⟩
  split
  · exact ⟨none, fun _ => rfl⟩
  · rename_i record _
    split
    · rename_i role text _ _
      by_cases hempty : text.isEmpty
      · exact ⟨none, fun _ => by rw [if_pos hempty]; rfl⟩
      · exact ⟨some (role, text, extractTs record), fun _ => by rw [if_neg hempty]; rfl⟩
    · exact ⟨none, fun _ => rfl⟩

theorem byteOffset_parseLine {line : List UInt8} {offset : Nat} {b : ParsedBlock}
    (h : b ∈ (parseLine crates line offset).1) : b.byteOffset = offset := by
  obtain ⟨content, hcontent⟩ := parseLine_content crates line
  rw [hcontent] at h
  obtain ⟨c, -, rfl⟩ := Option.mem_map.mp h
  rfl

/-- Lines that begin elsewhere have the same blocks, shifted. -/
theorem blocks_shift (base offset : Nat) (lines : List (List UInt8)) :
    blocks crates (base + offset) lines =
      (blocks crates offset lines).map fun b => { b with byteOffset := base + b.byteOffset } := by
  induction lines generalizing offset with
  | nil => rfl
  | cons line lines ih =>
    obtain ⟨content, hcontent⟩ := parseLine_content crates line
    have hnext : base + offset + line.length + 1 = base + (offset + line.length + 1) := by omega
    rw [blocks_cons_line, blocks_cons_line, hnext, ih, List.map_append, hcontent, hcontent]
    cases content <;> rfl

theorem le_byteOffset {offset : Nat} {lines : List (List UInt8)} {b : ParsedBlock} (h : b ∈ blocks crates offset lines) :
    offset ≤ b.byteOffset := by
  induction lines generalizing offset with
  | nil => cases h
  | cons line lines ih =>
    rcases List.mem_append.mp h with h | h
    · exact (byteOffset_parseLine (Option.mem_toList.mp h)).ge
    · have := ih h
      omega

/-- No two blocks have one offset. -/
theorem blocks_pairwise (offset : Nat) (lines : List (List UInt8)) :
    (blocks crates offset lines).Pairwise fun b b' => b.byteOffset < b'.byteOffset := by
  induction lines generalizing offset with
  | nil => exact List.Pairwise.nil
  | cons line lines ih =>
    rw [blocks_cons_line, List.pairwise_append]
    refine ⟨?_, ih _, fun b hb b' hb' => ?_⟩
    · cases (parseLine crates line offset).1 with
      | none => exact List.Pairwise.nil
      | some b => exact List.pairwise_singleton _ b
    · have heq := byteOffset_parseLine (Option.mem_toList.mp hb)
      have hle := le_byteOffset hb'
      omega

/-! ## Cutting off the front -/

theorem splitOn_cons (x : UInt8) (bytes : List UInt8) :
    (x :: bytes).splitOn (byte '\n') =
      if x = byte '\n' then [] :: bytes.splitOn (byte '\n')
      else (bytes.splitOn (byte '\n')).modifyHead (x :: ·) := by
  rw [List.splitOn_eq_splitOnP, List.splitOn_eq_splitOnP, List.splitOnP_cons_eq_if_modifyHead]
  simp only [beq_iff_eq]

/-- A suffix of a line that is a proper one has no block. -/
theorem parseLine_suffix {bytes line s : List UInt8} (h : WholeRecords crates bytes)
    (hline : line ∈ bytes.splitOn (byte '\n')) (hs : s <:+ line) (hne : s ≠ line) (offset : Nat) :
    (parseLine crates s offset).1 = none := by
  unfold parseLine
  split
  · rfl
  split
  · rfl
  split
  · rfl
  · rename_i record hrecord
    rw [h line hline s hs hne record hrecord]

theorem WholeRecords.tail {x : UInt8} {bytes : List UInt8} (h : WholeRecords crates (x :: bytes)) :
    WholeRecords crates bytes := by
  intro line hline s hs hne
  by_cases hx : x = byte '\n'
  · refine h line ?_ s hs hne
    rw [splitOn_cons, if_pos hx]
    exact List.mem_cons_of_mem _ hline
  · have hsplit := splitOn_cons x bytes
    rw [if_neg hx] at hsplit
    obtain ⟨first, rest, hfirst⟩ := List.exists_cons_of_ne_nil (List.splitOn_ne_nil (byte '\n') bytes)
    rw [hfirst, List.modifyHead_cons] at hsplit
    rw [hfirst] at hline
    rcases List.mem_cons.mp hline with rfl | hrest
    · -- the line begins one byte earlier
      refine h (x :: line) (hsplit ▸ List.mem_cons_self) s (hs.trans (List.suffix_cons x line)) fun heq => ?_
      have := hs.length_le
      rw [heq, List.length_cons] at this
      omega
    · exact h line (hsplit ▸ List.mem_cons_of_mem _ hrest) s hs hne

/-- **The first byte is cut off**: the block goes that begins there. -/
theorem blocks_cons {x : UInt8} {bytes : List UInt8} (h : WholeRecords crates (x :: bytes)) (offset : Nat) :
    blocks crates (offset + 1) (bytes.splitOn (byte '\n')) =
      (blocks crates offset ((x :: bytes).splitOn (byte '\n'))).filter fun b => offset + 1 ≤ b.byteOffset := by
  have hkept : ∀ lines, (blocks crates (offset + 1) lines).filter (fun b => offset + 1 ≤ b.byteOffset) =
      blocks crates (offset + 1) lines :=
    fun lines => List.filter_eq_self.mpr fun b hb => decide_eq_true (le_byteOffset hb)
  have hsplit := splitOn_cons x bytes
  by_cases hx : x = byte '\n'
  · rw [if_pos hx] at hsplit
    rw [hsplit, blocks_cons_line, List.filter_append, List.length_nil, Nat.add_zero, hkept]
    rfl
  · rw [if_neg hx] at hsplit
    obtain ⟨first, rest, hfirst⟩ := List.exists_cons_of_ne_nil (List.splitOn_ne_nil (byte '\n') bytes)
    rw [hfirst, List.modifyHead_cons] at hsplit
    have hline : x :: first ∈ (x :: bytes).splitOn (byte '\n') := hsplit ▸ List.mem_cons_self
    have hnone := parseLine_suffix h hline (List.suffix_cons x first)
      (fun heq => by
        have := congrArg List.length heq
        rw [List.length_cons] at this
        omega) (offset + 1)
    have hgone : (parseLine crates (x :: first) offset).1.toList.filter (fun b => offset + 1 ≤ b.byteOffset) = [] :=
      List.filter_eq_nil_iff.mpr fun b hb hle => by
        have heq := byteOffset_parseLine (Option.mem_toList.mp hb)
        have hle' := of_decide_eq_true hle
        omega
    have hnext : offset + 1 + first.length + 1 = offset + (x :: first).length + 1 := by
      rw [List.length_cons]
      omega
    rw [hsplit, hfirst, blocks_cons_line, blocks_cons_line, hnone, List.filter_append, hgone, hnext,
      List.filter_eq_self.mpr fun b hb => decide_eq_true (by
        have := le_byteOffset hb
        rw [List.length_cons] at this
        omega)]
    rfl

/-- **What is left has the blocks that begin in it.** -/
theorem blocks_drop {bytes : List UInt8} (h : WholeRecords crates bytes) (offset p : Nat) :
    blocks crates (offset + p) ((bytes.drop p).splitOn (byte '\n')) =
      (blocks crates offset (bytes.splitOn (byte '\n'))).filter fun b => offset + p ≤ b.byteOffset := by
  induction p generalizing bytes offset with
  | zero => exact (List.filter_eq_self.mpr fun b hb => decide_eq_true (le_byteOffset hb)).symm
  | succ p ih =>
    cases bytes with
    | nil => rfl
    | cons x bytes =>
      have hnext : offset + (p + 1) = offset + 1 + p := by omega
      rw [List.drop_succ_cons, hnext, ih h.tail, blocks_cons h, List.filter_filter]
      refine List.filter_congr fun b _ => ?_
      rw [← Bool.decide_and, decide_eq_decide]
      omega

/-! ## Candidates -/

/-- The candidate that a block is, if any. -/
def candidate (crates : Crates) (sessionId : Str) (baseOffset : Nat) (b : ParsedBlock) : Option TranscriptCandidate :=
  let hints := matchFamilies crates b.text
  if hints.isEmpty then none else some ⟨sessionId, baseOffset + b.byteOffset, b.ts, hints, b.text⟩

theorem byteOffset_candidate {sessionId : Str} {baseOffset : Nat} {b : ParsedBlock} {c : TranscriptCandidate}
    (h : c ∈ candidate crates sessionId baseOffset b) : c.byteOffset = baseOffset + b.byteOffset := by
  unfold candidate at h
  dsimp only at h
  split at h
  · cases h
  · cases h
    rfl

/-- Candidates with offsets of their own are all kept. -/
theorem dedupStable_eq_self {seen : List (Str × Nat × UInt64)} {candidates : List TranscriptCandidate}
    (hseen : ∀ key ∈ seen, ∀ c ∈ candidates, key.2.1 ≠ c.byteOffset)
    (hne : candidates.Pairwise fun c c' => c.byteOffset ≠ c'.byteOffset) :
    dedupStable crates seen candidates = candidates := by
  induction candidates generalizing seen with
  | nil => rfl
  | cons c candidates ih =>
    obtain ⟨hc, hne⟩ := List.pairwise_cons.mp hne
    have hnew : (c.sessionId, c.byteOffset, crates.hashText c.text) ∉ seen :=
      fun hmem => hseen _ hmem c List.mem_cons_self rfl
    unfold dedupStable
    rw [if_neg hnew, ih (fun key hkey c' hc' => ?_) hne]
    rcases List.mem_cons.mp hkey with rfl | hkey
    · exact hc c' hc'
    · exact hseen key hkey c' (List.mem_cons_of_mem c hc')

/-- The candidates at `baseOffset` are those of blocks whose lines begin at `baseOffset`, in chronological order. -/
theorem selectCandidates_none (crates : Crates) (bytes : List UInt8) (sessionId : Str) (baseOffset : Nat) :
    selectCandidates crates bytes sessionId baseOffset none =
      StableSort.sortBy chronological
        ((blocks crates baseOffset (bytes.splitOn (byte '\n'))).filterMap (candidate crates sessionId 0)) := by
  have hshift : (blocks crates 0 (bytes.splitOn (byte '\n'))).filterMap (candidate crates sessionId baseOffset) =
      (blocks crates baseOffset (bytes.splitOn (byte '\n'))).filterMap (candidate crates sessionId 0) := by
    have hblocks : blocks crates (baseOffset + 0) (bytes.splitOn (byte '\n')) = _ := blocks_shift baseOffset 0 _
    rw [Nat.add_zero] at hblocks
    rw [hblocks, List.filterMap_map]
    refine List.filterMap_congr fun b _ => ?_
    unfold candidate
    rw [Function.comp_apply, Nat.zero_add]
  have hne : ((blocks crates 0 (bytes.splitOn (byte '\n'))).filterMap
      (candidate crates sessionId baseOffset)).Pairwise fun c c' => c.byteOffset ≠ c'.byteOffset := by
    rw [List.pairwise_filterMap]
    refine (blocks_pairwise 0 _).imp fun {b b'} hlt c hc c' hc' => ?_
    rw [byteOffset_candidate hc, byteOffset_candidate hc']
    omega
  have hdedup : dedupStable crates [] _ = _ := dedupStable_eq_self (by simp) hne
  unfold selectCandidates keepEarliestWithin
  rw [keepEarliestFrom_none, ← hshift, ← hdedup]
  rfl

/-- **What is left of a transcript has its candidates from there on; a cap keeps the longest prefix that fits.** -/
theorem select_ring_tail (crates : Crates) (bytes : List UInt8) (sessionId : Str) (p : Nat)
    (h : WholeRecords crates bytes) :
    selectCandidates crates (bytes.drop p) sessionId p none =
        (selectCandidates crates bytes sessionId 0 none).filter (fun c => p ≤ c.byteOffset) ∧
      ∀ cap, Budget.LongestWithin (fun c => len c.text) cap (selectCandidates crates (bytes.drop p) sessionId p none)
        (selectCandidates crates (bytes.drop p) sessionId p (some cap)) := by
  refine ⟨?_, fun cap => ?_⟩
  · have hblocks := blocks_drop h 0 p
    rw [Nat.zero_add] at hblocks
    rw [selectCandidates_none, selectCandidates_none, hblocks, ← StableSort.sortBy_filter, List.filterMap_filter,
      List.filter_filterMap]
    congr 1
    refine List.filterMap_congr fun b _ => ?_
    cases hcandidate : candidate crates sessionId 0 b with
    | none => rw [Option.filter_none, ite_self]
    | some c =>
      have hoffset := byteOffset_candidate (Option.mem_def.mpr hcandidate)
      rw [Nat.zero_add] at hoffset
      rw [Option.filter_some, hoffset]
  · rw [selectCandidates_some, keepEarliestFrom_eq_spend]
    exact Budget.spend_longest _ cap _

/-- Two records, of which the first is cut: the second is the candidate that is left, at its own offset. -/
theorem select_ring_tail_cut :
    let crates : Crates := {
      inRange := fun _ => true
      decision := fun text => decide ("decided".toList <:+: text)
      rework := fun _ => false
      lesson := fun _ => false
      phasegate := fun _ => false
      hashText := fun _ => 0
      toLowercase := id
      display := fun _ => []
      compileBoundedRegex := fun _ => none }
    let line := "\x7b\"type\":\"user\",\"message\":\x7b\"content\":\"decided\"\x7d\x7d".toList.map byte
    let bytes := line ++ byte '\n' :: line
    WholeRecords crates bytes ∧ bytes.length = 95 ∧
      (selectCandidates crates bytes ['s'] 0 none).map TranscriptCandidate.byteOffset = [0, 48] ∧
      (selectCandidates crates (bytes.drop 20) ['s'] 20 none).map TranscriptCandidate.byteOffset = [48] := by
  intro crates line bytes
  have hsuffixes : ∀ line ∈ bytes.splitOn (byte '\n'), ∀ s ∈ line.tails, s ≠ line →
      ((ofUtf8 s).bind (parse (rust crates.inRange).dialect)).bind recordRole = none := by decide +kernel
  have hwhole : WholeRecords crates bytes := fun line hline s hs hne record hrecord => by
    have := hsuffixes line hline s (by rwa [List.mem_tails]) hne
    rwa [hrecord, Option.bind_some] at this
  have hall : (selectCandidates crates bytes ['s'] 0 none).map TranscriptCandidate.byteOffset = [0, 48] := by
    decide +kernel
  refine ⟨hwhole, by decide, hall, ?_⟩
  rw [(select_ring_tail crates bytes ['s'] 20 hwhole).1]
  have hfilter := congrArg (List.filter fun offset => 20 ≤ offset) hall
  rwa [List.filter_map] at hfilter

end Unimatrix.Distill
