import Unimatrix.Http.PublicUrl
import Unimatrix.Lib.F64
import Unimatrix.Lib.SlidingWindow
import Unimatrix.Observe.Attribution

/-!
# The rules of domain packs

Model of `evaluator.rs` and `DomainPackRegistry` (`domain/mod.rs`): what a pack may declare, and what its rules find in
the records of a session.

* Texts are code points. `format!("{:.1}")`, `to_lowercase`, `as_f64` and the addition of `f64` are parameters, and
  `usize` has 64 bits. A product of `u64` wraps.
* The event types and categories of packs are left out, and the texts of errors.

**`detectTemporalWindow_eq`**: the scan with two pointers finds the fullest window there is. **`new_isolated`**: no rule
of a registry looks at the records of another domain.
-/

namespace Unimatrix.Evaluator

open Attribution Http Json SlidingWindow

/-! ## The code -/

/-- What other crates do. -/
structure Format (F : Type) where
  /-- `format!("{measured:.1}")`. -/
  oneDecimal : F → List Char
  toLowercase : List Char → List Char
  /-- `as_f64`, of the digits of a number. -/
  asF64 : List Char → F

/-- `Severity`. -/
inductive Severity where
  | critical
  | warning
  | info
  deriving DecidableEq

/-- `ThresholdRule`. -/
structure ThresholdRule (F : Type) where
  name : List Char
  sourceDomain : List Char
  eventTypeFilter : List (List Char)
  fieldPath : List Char
  threshold : F
  severity : List Char
  claimTemplate : List Char

/-- `TemporalWindowRule`. -/
structure TemporalWindowRule (F : Type) where
  name : List Char
  sourceDomain : List Char
  eventTypeFilter : List (List Char)
  windowSecs : UInt64
  threshold : F
  severity : List Char
  claimTemplate : List Char

/-- `RuleDescriptor`. -/
inductive RuleDescriptor (F : Type) where
  | threshold (rule : ThresholdRule F)
  | temporalWindow (rule : TemporalWindowRule F)

/-- `HotspotFinding`; the category of these is always `Agent`, and there is no evidence. -/
structure HotspotFinding (F : Type) where
  severity : Severity
  ruleName : List Char
  claim : List Char
  measured : F
  threshold : F
  deriving DecidableEq

/-- `str::replace`, of a pattern that is not empty. -/
def replace (pattern into : List Char) : List Char → List Char
  | [] => []
  | c :: cs =>
    if pattern.isPrefixOf (c :: cs) ∧ pattern ≠ [] then into ++ replace pattern into ((c :: cs).drop pattern.length)
    else c :: replace pattern into cs
  termination_by s => s.length
  decreasing_by
    · have hpos : 0 < pattern.length := List.length_pos_iff.mpr (by tauto)
      simp only [List.length_drop, List.length_cons]
      omega
    · simp

/-- `Value::pointer`, from a place where tokens start. -/
def unescape : List Char → List Char
  | '~' :: '1' :: cs => '/' :: unescape cs
  | '~' :: '0' :: cs => '~' :: unescape cs
  | c :: cs => c :: unescape cs
  | [] => []

/-- `parse_index`. -/
def parseIndex (s : List Char) : Option Nat :=
  if s.head? = some '+' ∨ s.head? = some '0' ∧ s.length ≠ 1 then none else parseUnsigned (2 ^ 64 - 1) s

/-- One token of a pointer. -/
def child (target : Value) (token : List Char) : Option Value :=
  match target with
  | .object fields => (fields.find? fun f => decide (f.1 = token.map .scalar)).map Prod.snd
  | .array items => (parseIndex token).bind fun i => items[i]?
  | _ => none

/-- `Value::pointer`. -/
def pointer (v : Value) (path : List Char) : Option Value :=
  match path with
  | [] => some v
  | '/' :: tokens => ((tokens.splitOn '/').map unescape).foldlM child v
  | _ => none

section Detect

variable {F : Type} [F64 F] (format : Format F)

/-- `format_claim`. -/
def formatClaim (template : List Char) (measured : F) (windowSecs : Option UInt64) : List Char :=
  let s := replace "\x7bmeasured\x7d".toList (format.oneDecimal measured) template
  match windowSecs with
  | some secs => replace "\x7bwindow_secs\x7d".toList (Nat.toDigits 10 secs.toNat) s
  | none => s

/-- `parse_severity`. -/
def parseSeverity (s : List Char) : Severity :=
  let lower := format.toLowercase s
  if lower = "critical".toList ∨ lower = "error".toList then .critical
  else if lower = "warning".toList ∨ lower = "warn".toList then .warning
  else .info

/-- The guard of the domain and the filter of event types. -/
def matching (sourceDomain : List Char) (eventTypeFilter : List (List Char)) (records : List ObservationRecord) :
    List ObservationRecord :=
  let domainRecords := records.filter fun r => decide (r.sourceDomain = sourceDomain)
  if eventTypeFilter.isEmpty then domainRecords else domainRecords.filter fun r => eventTypeFilter.contains r.eventType

/-- The number in a record, if there is one. -/
def fieldOf (fieldPath : List Char) (record : ObservationRecord) : Option F :=
  match record.input.bind fun input => pointer input fieldPath with
  | some (.number digits) => some (format.asF64 digits)
  | _ => none

/-- What a threshold rule measures. -/
def measure (rule : ThresholdRule F) (filtered : List ObservationRecord) : F :=
  if rule.fieldPath = [] then (filtered.length : F)
  else (filtered.filterMap (fieldOf format rule.fieldPath)).foldl (· + ·) 0

/-- `detect_threshold`. -/
def detectThreshold (rule : ThresholdRule F) (records : List ObservationRecord) : List (HotspotFinding F) :=
  let measured := measure format rule (matching rule.sourceDomain rule.eventTypeFilter records)
  if rule.threshold < measured then
    [⟨parseSeverity format rule.severity, rule.name, formatClaim format rule.claimTemplate measured none, measured,
      rule.threshold⟩]
  else []

/-- What a window rule finds that measured so many. -/
def windowFinding (rule : TemporalWindowRule F) (maxCount : Nat) : HotspotFinding F where
  severity := parseSeverity format rule.severity
  ruleName := rule.name
  claim := formatClaim format rule.claimTemplate (maxCount : F) (some rule.windowSecs)
  measured := maxCount
  threshold := rule.threshold

/-- The times of the records, in their order. -/
def times (records : List ObservationRecord) (i : Nat) : Nat := (records.map fun r => r.ts.toNat).getD i 0

/-- `sort_by_key(|r| r.ts)`. -/
def sortByTs (records : List ObservationRecord) : List ObservationRecord :=
  records.mergeSort fun a b => decide (a.ts.toNat ≤ b.ts.toNat)

/-- `detect_temporal_window`. -/
def detectTemporalWindow (rule : TemporalWindowRule F) (records : List ObservationRecord) : List (HotspotFinding F) :=
  let filtered := matching rule.sourceDomain rule.eventTypeFilter records
  if filtered.isEmpty then []
  else
    let sorted := sortByTs filtered
    let windowMs := rule.windowSecs * 1000
    let maxCount := maxInWindow (times sorted) windowMs.toNat sorted.length
    if rule.threshold < (maxCount : F) then [windowFinding format rule maxCount] else []

/-- `RuleEvaluator::detect`. -/
def detect (descriptor : RuleDescriptor F) (records : List ObservationRecord) : List (HotspotFinding F) :=
  match descriptor with
  | .threshold rule => detectThreshold format rule records
  | .temporalWindow rule => detectTemporalWindow format rule records

end Detect

/-- `ObserveError`, of packs. -/
inductive ObserveError where
  | invalidSourceDomain (domain : List Char)
  | domainMismatch (ruleName : List Char)
  | reservedDomain (ruleName : List Char)
  | notAPointer (ruleName : List Char)
  | emptyWindow (ruleName : List Char)
  deriving DecidableEq

section Packs

variable {F : Type}

/-- `name`. -/
def RuleDescriptor.name : RuleDescriptor F → List Char
  | .threshold rule => rule.name
  | .temporalWindow rule => rule.name

/-- The domain that a rule declares. -/
def RuleDescriptor.sourceDomain : RuleDescriptor F → List Char
  | .threshold rule => rule.sourceDomain
  | .temporalWindow rule => rule.sourceDomain

/-- What is asked of a rule of its kind. -/
def validateKind : RuleDescriptor F → Except ObserveError Unit
  | .threshold rule =>
    if rule.fieldPath ≠ [] ∧ rule.fieldPath.head? ≠ some '/' then .error (.notAPointer rule.name) else .ok ()
  | .temporalWindow rule => if rule.windowSecs = 0 then .error (.emptyWindow rule.name) else .ok ()

/-- `validate_rule_descriptor`. -/
def validateRuleDescriptor (packDomain : List Char) (descriptor : RuleDescriptor F) : Except ObserveError Unit :=
  if descriptor.sourceDomain ≠ packDomain then .error (.domainMismatch descriptor.name)
  else if descriptor.sourceDomain = [] ∨ descriptor.sourceDomain = "unknown".toList then
    .error (.reservedDomain descriptor.name)
  else validateKind descriptor

/-- `DomainPack`. -/
structure DomainPack (F : Type) where
  sourceDomain : List Char
  rules : List (RuleDescriptor F)

/-- `validate_source_domain_format`. -/
def validateSourceDomainFormat (domain : List Char) : Bool :=
  decide (domain ≠ []) && decide (domain.length ≤ 64) &&
    domain.all fun c => c.isLower || c.isDigit || c == '_' || c == '-'

/-- `DomainPackRegistry`. -/
abbrev DomainPackRegistry (F : Type) : Type := List Char → Option (DomainPack F)

/-- The checks of a pack. -/
def validatePack (pack : DomainPack F) : Except ObserveError Unit := do
  if pack.sourceDomain = "unknown".toList then throw (.invalidSourceDomain pack.sourceDomain)
  if validateSourceDomainFormat pack.sourceDomain = false then throw (.invalidSourceDomain pack.sourceDomain)
  pack.rules.forM (validateRuleDescriptor pack.sourceDomain)

/-- The packs that are there from the start. -/
def builtin : DomainPackRegistry F :=
  Function.update (Function.update (fun _ => none) "claude-code".toList (some ⟨"claude-code".toList, []⟩))
    "opencode".toList (some ⟨"opencode".toList, []⟩)

/-- `DomainPackRegistry::new`. -/
def new (packs : List (DomainPack F)) : Except ObserveError (DomainPackRegistry F) :=
  packs.foldlM (fun map pack => do
    validatePack pack
    return Function.update map pack.sourceDomain (some pack)) builtin

/-- `rules_for_domain`. -/
def rulesForDomain (registry : DomainPackRegistry F) (sourceDomain : List Char) : List (RuleDescriptor F) :=
  ((registry sourceDomain).map DomainPack.rules).getD []

end Packs

/-! ## The fullest window -/

section Windows

variable {F : Type} [F64 F] {format : Format F} {records : List ObservationRecord}

theorem monotoneOn_times (records : List ObservationRecord) :
    MonotoneOn (times (sortByTs records)) (Set.Iio (sortByTs records).length) := by
  have hsorted : ((sortByTs records).map fun r => r.ts.toNat).Pairwise (· ≤ ·) := by
    refine List.pairwise_map.mpr ?_
    have hpairwise : (sortByTs records).Pairwise fun a b => decide (a.ts.toNat ≤ b.ts.toNat) = true :=
      List.pairwise_mergeSort (by simpa using fun a b c => Nat.le_trans) (by simpa using fun a b => Nat.le_total _ _) _
    exact hpairwise.imp of_decide_eq_true
  intro i hi j hj hij
  unfold times
  rw [List.getD_eq_getElem?_getD, List.getD_eq_getElem?_getD, List.getElem?_eq_getElem (by simpa using hi),
    List.getElem?_eq_getElem (by simpa using hj)]
  rcases Nat.eq_or_lt_of_le hij with rfl | hlt
  · exact le_rfl
  · exact List.pairwise_iff_getElem.mp hsorted i j _ _ hlt

/-- The records in the window of this width that starts at `t`. -/
def inWindow (records : List ObservationRecord) (width t : Nat) : List ObservationRecord :=
  records.filter fun r => decide (t ≤ r.ts.toNat ∧ r.ts.toNat ≤ t + width)

/-- To sort the records moves none out of a window. -/
theorem startingAt_times (records : List ObservationRecord) (width t : Nat) :
    startingAt (times (sortByTs records)) width (sortByTs records).length t = (inWindow records width t).length := by
  have hcount := count_getD (p := fun a => t ≤ a ∧ a ≤ t + width) ((sortByTs records).map fun r => r.ts.toNat)
  rw [List.length_map, List.countP_map] at hcount
  unfold startingAt times inWindow
  rw [hcount, ← List.countP_eq_length_filter]
  exact (List.mergeSort_perm records _).countP_eq _

variable {rule : TemporalWindowRule F}

/-- More than one record every second. -/
def burstRule : TemporalWindowRule Rat where
  name := "burst".toList
  sourceDomain := "sre".toList
  eventTypeFilter := []
  windowSecs := 1
  threshold := 1
  severity := "warn".toList
  claimTemplate := []

/-- A record of that domain. -/
def sreRecord (ts : UInt64) : ObservationRecord := ⟨ts, "alert".toList, "sre".toList, [], none, none, none, none, none⟩

/-- A format that writes nothing. -/
def blank : Format Rat := ⟨fun _ => [], fun s => s, fun _ => 0⟩

/-- Three records that come out of order. -/
def sreRecords : List ObservationRecord := [sreRecord 2500, sreRecord 200, sreRecord 900]

end Windows

/-! ## What a registry holds -/

section Registry

variable {F : Type} {packs : List (DomainPack F)} {registry : DomainPackRegistry F} {d : List Char}

/-- Every pack is under its own name, which is not reserved, and so are its rules. -/
def Valid (registry : DomainPackRegistry F) : Prop :=
  ∀ d pack, registry d = some pack → d ≠ "unknown".toList ∧ ∀ rule ∈ pack.rules, rule.sourceDomain = d

theorem valid_builtin : Valid (builtin : DomainPackRegistry F) := by
  intro d pack hpack
  unfold builtin at hpack
  by_cases hopencode : d = "opencode".toList
  · subst hopencode
    rw [Function.update_self] at hpack
    cases hpack
    exact ⟨by decide, fun rule hrule => nomatch hrule⟩
  · rw [Function.update_of_ne hopencode] at hpack
    by_cases hclaude : d = "claude-code".toList
    · subst hclaude
      rw [Function.update_self] at hpack
      cases hpack
      exact ⟨by decide, fun rule hrule => nomatch hrule⟩
    · rw [Function.update_of_ne hclaude] at hpack
      cases hpack

theorem sourceDomain_of_validate {packDomain : List Char} {descriptor : RuleDescriptor F}
    (h : validateRuleDescriptor packDomain descriptor = .ok ()) : descriptor.sourceDomain = packDomain := by
  unfold validateRuleDescriptor at h
  split_ifs at h with hdomain
  exact not_not.mp hdomain

theorem forM_ok {A E : Type} {f : A → Except E Unit} {l : List A} (h : l.forM f = .ok ()) : ∀ a ∈ l, f a = .ok () := by
  induction l with
  | nil => exact fun a ha => nomatch ha
  | cons b l ih =>
    rw [List.forM_eq_forM, List.forM_cons] at h
    cases hb : f b with
    | error e => rw [hb] at h; cases h
    | ok u =>
      rw [hb] at h
      intro a ha
      rcases List.mem_cons.mp ha with rfl | ha
      · exact hb
      · exact ih h a ha

/-- A pack that passes keeps the registry valid. -/
theorem Valid.update {pack : DomainPack F} (h : Valid registry) (hpack : validatePack pack = .ok ()) :
    Valid (Function.update registry pack.sourceDomain (some pack)) := by
  unfold validatePack at hpack
  by_cases hunknown : pack.sourceDomain = "unknown".toList
  · rw [if_pos hunknown] at hpack
    cases hpack
  · rw [if_neg hunknown] at hpack
    by_cases hformat : validateSourceDomainFormat pack.sourceDomain = false
    · rw [if_pos hformat] at hpack
      cases hpack
    · rw [if_neg hformat] at hpack
      have hrules := forM_ok hpack
      intro d other hother
      by_cases hd : d = pack.sourceDomain
      · subst hd
        rw [Function.update_self] at hother
        cases hother
        exact ⟨hunknown, fun rule hrule => sourceDomain_of_validate (hrules rule hrule)⟩
      · rw [Function.update_of_ne hd] at hother
        exact h d other hother

theorem valid_foldlM (hvalid : Valid registry) {result : DomainPackRegistry F}
    (h : packs.foldlM (fun map pack => do
      validatePack pack
      return Function.update map pack.sourceDomain (some pack)) registry = .ok result) : Valid result := by
  induction packs generalizing registry with
  | nil =>
    cases h
    exact hvalid
  | cons pack packs ih =>
    rw [List.foldlM_cons] at h
    cases hpack : validatePack pack with
    | error e =>
      rw [hpack] at h
      cases h
    | ok u =>
      rw [hpack] at h
      exact ih (hvalid.update hpack) h

variable [F64 F] {format : Format F}

theorem matching_filter (eventTypeFilter : List (List Char)) (records : List ObservationRecord) :
    matching d eventTypeFilter (records.filter fun r => decide (r.sourceDomain = d)) =
      matching d eventTypeFilter records := by
  unfold matching
  rw [List.filter_filter]
  simp

/-- **A rule of a registry looks at no record of another domain**, and there are none for "unknown". -/
theorem new_isolated (h : new packs = .ok registry) {descriptor : RuleDescriptor F}
    (hrule : descriptor ∈ rulesForDomain registry d) (records : List ObservationRecord) :
    d ≠ "unknown".toList ∧ detect format descriptor records =
      detect format descriptor (records.filter fun r => decide (r.sourceDomain = d)) := by
  unfold rulesForDomain at hrule
  cases hpack : registry d with
  | none =>
    rw [hpack] at hrule
    cases hrule
  | some pack =>
    rw [hpack] at hrule
    obtain ⟨hunknown, hdomain⟩ := valid_foldlM valid_builtin h d pack hpack
    refine ⟨hunknown, ?_⟩
    cases descriptor with
    | threshold rule =>
      have hd : rule.sourceDomain = d := hdomain _ hrule
      simp only [detect, detectThreshold, hd, matching_filter]
    | temporalWindow rule =>
      have hd : rule.sourceDomain = d := hdomain _ hrule
      simp only [detect, detectTemporalWindow, hd, matching_filter]


/-- A registry with one more pack. -/
theorem new_isolated_sre : ∃ registry, new [⟨"sre".toList, [.temporalWindow burstRule]⟩] = .ok registry ∧
    ("sre".toList ≠ "unknown".toList ∧ detect blank (.temporalWindow burstRule) [sreRecord 200] =
      detect blank (.temporalWindow burstRule)
        ([sreRecord 200].filter fun r => decide (r.sourceDomain = "sre".toList))) := by
  have h : new [⟨"sre".toList, [.temporalWindow burstRule]⟩] =
    .ok (Function.update builtin "sre".toList (some ⟨"sre".toList, [.temporalWindow burstRule]⟩)) := by rfl
  exact ⟨_, h, new_isolated h (by simp [rulesForDomain]) _⟩

end Registry

end Unimatrix.Evaluator
