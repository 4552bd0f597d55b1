import Unimatrix.Contradiction.Verbs

/-!
# The polarity of directives

Which verb the expression of `contradiction.rs` captures, and what `is_affirmative` makes of it. At a place where the text
has `avoid`, `never`, `don't` or `disable` the verb is that phrase. At `do not` it is the phrase with its whitespace as it
stands, and `is_affirmative` knows it with one space only. At `should not` and `must not` the alternative `should` or
`must` comes first and goes through, so the verb is affirmative and `not` begins the subject.
-/

namespace Unimatrix.Contradiction

open Regex TopicSignal

/-! ## Places -/

/-- The negative phrases. -/
inductive Phrase where
  | avoid
  | never
  | doNot
  | dont
  | shouldNot
  | mustNot
  | disable
  deriving DecidableEq, Repr

namespace Phrase

/-- The first word. -/
def first : Phrase → String
  | .avoid => "avoid"
  | .never => "never"
  | .doNot => "do"
  | .dont => "don't"
  | .shouldNot => "should"
  | .mustNot => "must"
  | .disable => "disable"

/-- Whether `not` follows as a second word. -/
def isDouble : Phrase → Bool
  | .doNot | .shouldNot | .mustNot => true
  | _ => false

/-- The second word. -/
def second (p : Phrase) : String := if p.isDouble then "not" else ""

/-- The program knows the phrase as negative with the whitespace `inner` between its words. -/
def Known : Phrase → Str → Prop
  | .avoid, _ | .never, _ | .dont, _ | .disable, _ => True
  | .doNot, inner => inner = [' ']
  | .shouldNot, _ | .mustNot, _ => False

end Phrase

/-- A directive at a place where the text has a negative phrase, in any case and with any whitespace between its words,
and behind it whitespace and a word. -/
structure NegativePlace (u : Unicode) where
  phrase : Phrase
  before : Str
  first : Str
  inner : Str
  second : Str
  gap : Str
  word : Char
  after : Str
  directive : Match Char
  first_spells : first.map Char.toLower = phrase.first.toList
  second_spells : second.map Char.toLower = phrase.second.toList
  inner_space : ∀ c ∈ inner, isRustWhitespace c
  inner_empty : inner = [] ↔ phrase.isDouble = false
  gap_space : ∀ c ∈ gap, isRustWhitespace c
  gap_ne : gap ≠ []
  isWord : u.isWord word
  yielded : directive ∈ captures (directiveRegex u) (before ++ (first ++ inner ++ second) ++ gap ++ word :: after)
  at_phrase : directive.start = before.length

namespace NegativePlace

variable {u : Unicode} (p : NegativePlace u)

/-- The phrase as the text has it. -/
def spelled : Str := p.first ++ p.inner ++ p.second

/-- The text. -/
def text : Str := p.before ++ p.spelled ++ p.gap ++ p.word :: p.after

/-- The directive is negative, and its subject begins behind the phrase. -/
structure Correct : Prop where
  negative : isAffirmative (directiveOf u p.directive).1 = false
  subject : ∃ c, p.directive.final.capture 2 = some c ∧ p.before.length + p.spelled.length ≤ c.start

end NegativePlace

/-! ## The directive at a place -/

namespace NegativePlace

variable {u : Unicode} (p : NegativePlace u)

/-- The state at the phrase. -/
def state : State Char := stateAt p.text p.before.length

theorem state_eq : p.state = ⟨p.before.reverse, p.spelled ++ (p.gap ++ p.word :: p.after), []⟩ := by
  rw [state, stateAt, text, List.append_assoc, List.append_assoc, List.take_left, List.drop_left]

theorem head_eq : (results (directiveRegex u) p.state).head? = some p.directive.final := by
  have h := mem_captures p.yielded
  rwa [p.at_phrase] at h

theorem ascii_words : (∀ c ∈ p.phrase.first.toList, c.toNat < 128) ∧ ∀ c ∈ p.phrase.second.toList, c.toNat < 128 := by
  cases p.phrase <;> simp [Phrase.first, Phrase.second, Phrase.isDouble]

theorem first_fold : p.first.map fold = p.phrase.first.toList :=
  (map_fold_of_lower p.ascii_words.1 p.first_spells).1

theorem second_fold : p.second.map fold = p.phrase.second.toList :=
  (map_fold_of_lower p.ascii_words.2 p.second_spells).1

/-- In lower case the phrase is its words with the whitespace as it stands. -/
theorem lower_spelled : u.toLowercase p.spelled = p.phrase.first.toList ++ p.inner ++ p.phrase.second.toList := by
  have hplain : ∀ c ∈ p.spelled, c.toNat < 128 ∨ isRustWhitespace c := by
    intro c hc
    rcases List.mem_append.mp hc with hc | hc
    · rcases List.mem_append.mp hc with hc | hc
      · exact .inl ((map_fold_of_lower p.ascii_words.1 p.first_spells).2 c hc)
      · exact .inr (p.inner_space c hc)
    · exact .inl ((map_fold_of_lower p.ascii_words.2 p.second_spells).2 c hc)
  rw [u.lower_plain _ hplain, spelled, List.map_append, List.map_append, p.first_spells, p.second_spells,
    map_toLower_space p.inner_space]

theorem state_groups : p.state.groups = [] := rfl

theorem state_pos : p.state.pos = p.before.length := by
  rw [state_eq, State.pos, List.length_reverse]

theorem state_rest : p.state.rest = p.spelled ++ (p.gap ++ p.word :: p.after) := by
  rw [state_eq]

theorem rest_fold : p.state.rest.map fold =
    p.phrase.first.toList ++ ((p.inner ++ (p.second ++ (p.gap ++ p.word :: p.after))).map fold) := by
  rw [state_rest, spelled, List.append_assoc, List.append_assoc, List.map_append, p.first_fold]

theorem length_first : p.first.length = p.phrase.first.toList.length := by
  rw [← p.first_fold, List.length_map]

theorem length_second : p.second.length = p.phrase.second.toList.length := by
  rw [← p.second_fold, List.length_map]

theorem spelled_of_single (h : p.phrase.isDouble = false) : p.spelled = p.first := by
  have hsecond := p.second_spells
  rw [Phrase.second, h] at hsecond
  have hnil : p.second = [] := List.map_eq_nil_iff.mp hsecond
  rw [spelled, p.inner_empty.mpr h, hnil, List.append_nil, List.append_nil]

theorem skip_single (h : p.phrase.isDouble = false) :
    p.state.skip p.spelled.length = p.state.skip p.phrase.first.toList.length := by
  rw [p.spelled_of_single h, p.length_first]

/-- The verb group takes a phrase of one word, and `do` with its `not`. -/
theorem verbs_eq (h : p.phrase ≠ .shouldNot ∧ p.phrase ≠ .mustNot) :
    results (oneOf verbs) p.state = [p.state.skip p.spelled.length] := by
  have hrest := p.rest_fold
  have hsingle := p.skip_single
  cases hphrase : p.phrase with
  | avoid =>
    rw [hphrase] at hrest hsingle
    rw [hsingle rfl]
    exact verbs_avoid hrest
  | never =>
    rw [hphrase] at hrest hsingle
    rw [hsingle rfl]
    exact verbs_never hrest
  | dont =>
    rw [hphrase] at hrest hsingle
    rw [hsingle rfl]
    exact verbs_dont hrest
  | disable =>
    rw [hphrase] at hrest hsingle
    rw [hsingle rfl]
    exact verbs_disable hrest
  | doNot =>
    have hfirst := p.first_fold
    have hsecond := p.second_fold
    have hempty := p.inner_empty
    have hlen₁ := p.length_first
    have hlen₂ := p.length_second
    rw [hphrase] at hfirst hsecond hempty hlen₁ hlen₂
    have hstate : p.state.rest = p.first ++ (p.inner ++ (p.second ++ (p.gap ++ p.word :: p.after))) := by
      rw [p.state_rest, spelled, List.append_assoc, List.append_assoc]
    have hnot : (p.second ++ (p.gap ++ p.word :: p.after)).map fold =
        "not".toList ++ (p.gap ++ p.word :: p.after).map fold := by
      rw [List.map_append, hsecond]
      rfl
    have hne : p.inner ≠ [] := fun hnil => absurd (hempty.mp hnil) (by decide)
    rw [verbs_doNot hstate hfirst hne p.inner_space hnot, spelled, List.length_append, List.length_append, hlen₁, hlen₂]
    rfl
  | shouldNot => exact absurd hphrase h.1
  | mustNot => exact absurd hphrase h.2

/-- Where the verb group takes the phrase, the directive holds it. -/
theorem captures_of_verbs_eq (h : results (oneOf verbs) p.state = [p.state.skip p.spelled.length]) :
    groupText p.directive 1 = p.spelled ∧
      ∃ c, p.directive.final.capture 2 = some c ∧ p.before.length + p.spelled.length ≤ c.start := by
  have hhead := head_directive p.head_eq
  rw [h, List.flatMap_singleton] at hhead
  have hlen : p.spelled.length ≤ p.state.rest.length := by
    rw [p.state_rest, List.length_append]
    exact Nat.le_add_right _ _
  obtain ⟨hone, c, hc, hstart⟩ := object_captures p.state_groups hlen (List.mem_of_head? hhead)
  rw [p.state_pos] at hstart
  refine ⟨?_, c, hc, hstart⟩
  rw [groupText, hone, p.state_rest, List.take_left]
  rfl

/-- At `should not` and `must not` the verb is the first word. -/
theorem captures_of_modal {w : String} (hw : p.phrase.first = w)
    (hverbs : results (oneOf verbs) p.state = p.state.skip w.toList.length :: results (keywords w "not") p.state) :
    groupText p.directive 1 = p.first := by
  have hlen : w.toList.length ≤ p.state.rest.length := by
    rw [← hw, ← p.length_first, p.state_rest, spelled, List.length_append, List.length_append, List.length_append]
    omega
  obtain ⟨hone, -⟩ := object_captures p.state_groups hlen (head_modal hverbs p.head_eq)
  rw [groupText, hone, ← hw, ← p.length_first, p.state_rest, spelled, List.append_assoc, List.append_assoc,
    List.take_left]
  rfl

theorem lower_first : u.toLowercase p.first = p.phrase.first.toList := by
  rw [u.lower_plain _ fun c hc => .inl ((map_fold_of_lower p.ascii_words.1 p.first_spells).2 c hc), p.first_spells]

/-- **Where the program knows the phrase, the directive is negative** and its subject begins behind the phrase. -/
theorem correct_of_known (h : p.phrase.Known p.inner) : p.Correct := by
  have hphrase : p.phrase ≠ .shouldNot ∧ p.phrase ≠ .mustNot := by
    constructor <;> intro heq <;> rw [heq] at h <;> exact h
  obtain ⟨hverb, hsubject⟩ := p.captures_of_verbs_eq (p.verbs_eq hphrase)
  refine ⟨?_, hsubject⟩
  have hlower := p.lower_spelled
  have hempty := p.inner_empty
  change isAffirmative (u.toLowercase (groupText p.directive 1)) = false
  rw [hverb, hlower]
  cases heq : p.phrase <;> rw [heq] at h hempty
  case doNot =>
    rw [show p.inner = [' '] from h]
    decide
  case shouldNot => exact h.elim
  case mustNot => exact h.elim
  all_goals
    rw [hempty.mpr rfl]
    decide

/-- The spelling with one space is the only one that is known. -/
theorem isAffirmative_do {inner : Str} (hspace : ∀ c ∈ inner, isRustWhitespace c) (hne : inner ≠ [])
    (h : inner ≠ [' ']) : isAffirmative ("do".toList ++ inner ++ "not".toList) = true := by
  obtain ⟨c, inner, rfl⟩ := List.exists_cons_of_ne_nil hne
  have hn : c ≠ 'n' := by
    rintro rfl
    exact absurd (hspace 'n' List.mem_cons_self) (by decide)
  have hknown : "do".toList ++ c :: inner ++ "not".toList ∉ negativeVerbs.map String.toList := by
    simp [negativeVerbs, hn]
    exact fun hc hinner => h (by rw [hc, hinner])
  rw [isAffirmative, if_neg hknown, ite_self]

theorem not_correct_of_unknown (h : ¬ p.phrase.Known p.inner) : ¬ p.Correct := by
  intro hcorrect
  have hnegative : isAffirmative (u.toLowercase (groupText p.directive 1)) = false := hcorrect.negative
  have hrest := p.rest_fold
  have hfirst := p.lower_first
  have hempty := p.inner_empty
  cases heq : p.phrase <;> rw [heq] at h hempty hrest hfirst
  case doNot =>
    have hverb := (p.captures_of_verbs_eq (p.verbs_eq (by simp [heq]))).1
    have hlower := p.lower_spelled
    rw [heq] at hlower
    rw [hverb, hlower] at hnegative
    have hne : p.inner ≠ [] := fun hnil => absurd (hempty.mp hnil) (by decide)
    exact absurd (isAffirmative_do p.inner_space hne h) (by rw [Bool.not_eq_true]; exact hnegative)
  case shouldNot =>
    rw [p.captures_of_modal (by rw [heq]; rfl) (verbs_should hrest), hfirst] at hnegative
    exact absurd hnegative (by decide)
  case mustNot =>
    rw [p.captures_of_modal (by rw [heq]; rfl) (verbs_must hrest), hfirst] at hnegative
    exact absurd hnegative (by decide)
  all_goals exact h trivial

end NegativePlace

/-! ## Subjects -/

/-- A subject of at most four words in lower case, in which no verb stands as a word of its own. -/
structure Subject (u : Unicode) where
  text : Str
  lower : u.toLowercase text = text
  words : ((text.splitOnP isRustWhitespace).filter fun w => w ≠ []).length ≤ 4
  verbFree : ∀ front v back, text = front ++ v ++ back → IsVerb v →
    front.getLast?.any u.isWord ∨ back.head?.any u.isWord

section Modal

variable {u : Unicode}

/-- Neither text begins with the other. -/
def clash (v l : Str) : Bool := !v.isPrefixOf l && !l.isPrefixOf v

theorem not_starts_of_clash {v l x : Str} (h : clash v l) : ¬ v <+: l ++ x := by
  intro hv
  simp only [clash, Bool.and_eq_true, Bool.not_eq_true', ← Bool.not_eq_true, List.isPrefixOf_iff_prefix] at h
  exact (List.prefix_or_prefix_of_prefix hv (List.prefix_append l x)).elim h.1 h.2

/-- The first word of a verb. -/
theorem IsVerb.first {v : Str} (h : IsVerb v) : ∃ w ∈ singles ++ modals, w.toList <+: v.map fold := by
  rcases h with ⟨w, hw, h⟩ | ⟨w, hw, inner, -, -, h⟩
  · exact ⟨w, List.mem_append_left _ hw, h ▸ List.prefix_rfl⟩
  · exact ⟨w, List.mem_append_right _ hw, by rw [h, List.append_assoc]; exact List.prefix_append _ _⟩

theorem IsVerb.head_isWord {v : Str} (h : IsVerb v) : v.head?.any u.isWord := by
  obtain ⟨w, hw, x, hx⟩ := h.first
  have hletter : ∀ w ∈ singles ++ modals, w.toList.head?.any fun l => l.isAlphanum && l.toNat < 128 := by decide
  have hl := hletter w hw
  cases v with
  | nil =>
    rw [List.map_nil, List.append_eq_nil_iff] at hx
    simp [hx.1] at hl
  | cons c v =>
    cases hlist : w.toList with
    | nil => simp [hlist] at hl
    | cons l ls =>
      simp only [hlist, List.head?_cons, Option.any_some, Bool.and_eq_true, decide_eq_true_eq] at hl
      rw [hlist] at hx
      exact isWord_of_fold hl.1 hl.2 (List.cons.inj hx).1.symm

theorem verbs_nil {s : State Char} {l x : Str} (hclash : ∀ w ∈ singles ++ modals, clash w.toList l)
    (h : s.rest.map fold = l ++ x) : results (oneOf verbs) s = [] := by
  refine List.eq_nil_iff_forall_not_mem.mpr fun t ht => ?_
  obtain ⟨n, -, -, hverb⟩ := isVerb_of_mem ht
  obtain ⟨w, hw, hstarts⟩ := hverb.first
  refine not_starts_of_clash (hclash w hw) (x := x) (hstarts.trans ?_)
  rw [← h, List.map_take]
  exact List.take_prefix _ _

/-- No directive begins within a subject. -/
theorem not_head_in_subject (S : Subject u) (front : Str) {k : Nat} {r : State Char}
    (h : (results (directiveRegex u) (stateAt (front ++ S.text) (front.length + k))).head? = some r) : False := by
  have hrest : (stateAt (front ++ S.text) (front.length + k)).rest = S.text.drop k := by
    rw [stateAt, List.drop_append]
    simp
  have hbefore : (stateAt (front ++ S.text) (front.length + k)).before.head? =
      (S.text.take k).getLast?.or front.getLast? := by
    rw [stateAt, List.head?_reverse, List.take_append, List.take_of_length_le (Nat.le_add_right _ _),
      Nat.add_sub_cancel_left, List.getLast?_append]
  have hboundary := boundary_of_head h
  obtain ⟨t, ht, hr⟩ := List.mem_flatMap.mp (List.mem_of_head? (head_directive h))
  have hspace : t.rest.head?.any isRustWhitespace := (mem_object hr).1
  obtain ⟨n, -, rfl, hverb⟩ := isVerb_of_mem ht
  rw [hbefore, hrest] at hboundary
  rw [hrest] at hverb
  rw [State.skip_rest, hrest] at hspace
  have hword := hverb.head_isWord (u := u)
  have htext : S.text = S.text.take k ++ (S.text.drop k).take n ++ (S.text.drop k).drop n := by
    rw [List.append_assoc, List.take_append_drop, List.take_append_drop]
  rcases S.verbFree _ _ _ htext hverb with hfront | hback
  · -- the verb goes on a word
    have hleft : ((S.text.take k).getLast?.or front.getLast?).any u.isWord = true := by
      cases hlast : (S.text.take k).getLast? with
      | none => simp [hlast] at hfront
      | some c => simpa [hlast] using hfront
    have hright : (S.text.drop k).head?.any u.isWord = true := by
      cases hhead : (S.text.drop k) with
      | nil => simp [hhead] at hword
      | cons c l =>
        cases n with
        | zero => simp at hword
        | succ n => simpa [hhead] using hword
    exact hboundary (hleft.trans hright.symm)
  · -- the word goes on behind the verb
    cases hhead : (S.text.drop k).drop n with
    | nil => simp [hhead] at hback
    | cons c l =>
      have hc : u.isWord c := by simpa [hhead] using hback
      have hsp : isRustWhitespace c := by simpa [hhead] using hspace
      rw [u.word_space c hsp] at hc
      cases hc

/-- **Behind a modal verb a subject makes affirmative directives only.** -/
theorem affirmative_behind {front : Str} {w : String} (S : Subject u)
    (hclash : ∀ i < front.length, 0 < i → ∀ v ∈ singles ++ modals, clash v.toList ((front.drop i).map fold))
    (hverbs : ∀ {s : State Char} {x : Str}, s.rest.map fold = front.map fold ++ x →
      results (oneOf verbs) s = s.skip w.toList.length :: results (keywords w "not") s)
    (hw : w.toList <+: front) (hascii : ∀ c ∈ w.toList, c.toNat < 128) (hlower : w.toList.map Char.toLower = w.toList)
    (haffirm : isAffirmative w.toList = true) :
    ∀ d ∈ extractDirectives u (front ++ S.text), isAffirmative d.1 = true := by
  intro d hd
  obtain ⟨m, hm, rfl⟩ := List.mem_map.mp hd
  have hhead := mem_captures hm
  rcases Nat.lt_or_ge m.start front.length with hlt | hge
  · have hrest : (stateAt (front ++ S.text) m.start).rest = front.drop m.start ++ S.text := by
      rw [stateAt, List.drop_append, Nat.sub_eq_zero_of_le hlt.le, List.drop_zero]
    rcases Nat.eq_zero_or_pos m.start with hzero | hpos
    · rw [hzero] at hhead hrest
      rw [List.drop_zero] at hrest
      obtain ⟨x, hx⟩ := hw
      have hlen : w.toList.length ≤ (stateAt (front ++ S.text) 0).rest.length := by
        rw [hrest, ← hx, List.length_append, List.length_append]
        omega
      have hmodal := head_modal (hverbs (by rw [hrest, List.map_append])) hhead
      obtain ⟨hone, -⟩ := object_captures rfl hlen hmodal
      have hverb : groupText m 1 = w.toList := by
        rw [groupText, hone, hrest, ← hx, List.append_assoc, List.take_left]
        rfl
      rw [directiveOf, hverb, u.lower_plain _ fun c hc => .inl (hascii c hc), hlower]
      exact haffirm
    · have hnil := verbs_nil (hclash m.start hlt hpos) (s := stateAt (front ++ S.text) m.start) (x := S.text.map fold)
        (by rw [hrest, List.map_append])
      have hnone := head_directive hhead
      rw [hnil] at hnone
      cases hnone
  · obtain ⟨k, hk⟩ := Nat.exists_eq_add_of_le hge
    rw [hk] at hhead
    exact (not_head_in_subject S front hhead).elim

end Modal

theorem checkNegationOpposition_eq_zero {F : Type} [F64 F] {u : Unicode} {a b : Str}
    (ha : ∀ d ∈ extractDirectives u a, isAffirmative d.1 = true)
    (hb : ∀ d ∈ extractDirectives u b, isAffirmative d.1 = true) : checkNegationOpposition (F := F) u a b = 0 := by
  have hconst : ∀ {α : Type} (f : F → α → F) (l : List α), (∀ x ∈ l, f 0 x = 0) → l.foldl f 0 = 0 := by
    intro α f l hl
    induction l with
    | nil => rfl
    | cons x l ih =>
      rw [List.foldl_cons, hl x List.mem_cons_self]
      exact ih fun y hy => hl y (List.mem_cons_of_mem _ hy)
  refine hconst _ _ fun d hd => hconst _ _ fun e he => ?_
  rw [opposePair, ha d hd, hb e he, if_pos rfl]

/-- What the negative phrases are to be for the program: negative directives, and `should` and `must` opposed by their
negations. -/
structure Polar (F : Type) [F64 F] (u : Unicode) : Prop where
  directives : ∀ p : NegativePlace u, p.Correct
  should : ∀ S : Subject u,
    checkNegationOpposition (F := F) u ("should ".toList ++ S.text) ("should not ".toList ++ S.text) = 1
  must : ∀ S : Subject u,
    checkNegationOpposition (F := F) u ("must ".toList ++ S.text) ("must not ".toList ++ S.text) = 1

/-- **A directive at a negative phrase is negative exactly where the program knows the phrase**: `should not` and
`must not` never, `do not` with one space. So `should` and `must` are not opposed by their negations. -/
theorem polarity (F : Type) [F64 F] (u : Unicode) :
    (∀ p : NegativePlace u, p.Correct ↔ p.phrase.Known p.inner) ∧
      ∀ S : Subject u,
        checkNegationOpposition (F := F) u ("should ".toList ++ S.text) ("should not ".toList ++ S.text) = 0 ∧
          checkNegationOpposition (F := F) u ("must ".toList ++ S.text) ("must not ".toList ++ S.text) = 0 := by
  refine ⟨fun p => ⟨fun h => ?_, p.correct_of_known⟩, fun S => ⟨?_, ?_⟩⟩
  · by_contra hknown
    exact p.not_correct_of_unknown hknown h
  · have hshould : ∀ {y : Str} {s : State Char} {x : Str}, s.rest.map fold = "should".toList ++ y ++ x →
        results (oneOf verbs) s = s.skip "should".toList.length :: results (keywords "should" "not") s := by
      intro y s x h
      rw [List.append_assoc] at h
      exact verbs_should h
    refine checkNegationOpposition_eq_zero
      (affirmative_behind (w := "should") S (by decide) (hshould (y := [' '])) (by decide) (by simp) rfl rfl)
      (affirmative_behind (w := "should") S (by decide) (hshould (y := " not ".toList)) (by decide) (by simp) rfl rfl)
  · have hmust : ∀ {y : Str} {s : State Char} {x : Str}, s.rest.map fold = "must".toList ++ y ++ x →
        results (oneOf verbs) s = s.skip "must".toList.length :: results (keywords "must" "not") s := by
      intro y s x h
      rw [List.append_assoc] at h
      exact verbs_must h
    refine checkNegationOpposition_eq_zero
      (affirmative_behind (w := "must") S (by decide) (hmust (y := [' '])) (by decide) (by simp) rfl rfl)
      (affirmative_behind (w := "must") S (by decide) (hmust (y := " not ".toList)) (by decide) (by simp) rfl rfl)

theorem toLower_of_not_ascii {c : Char} (h : ¬ c.toNat < 128) : c.toLower = c := by
  unfold Char.toLower
  rw [dif_neg]
  intro hc
  have h2 : c.toNat ≤ 90 := hc.2
  omega

theorem ascii_forall {P : Char → Prop} (h : ∀ n < 128, P (Char.ofNat n)) {c : Char} (hc : c.toNat < 128) : P c := by
  have := h c.toNat hc
  rwa [Char.ofNat_toNat] at this

theorem fold_fold (c : Char) : fold (fold c) = fold c := by
  by_cases hc : c.toNat < 128
  · exact ascii_forall (P := fun c => fold (fold c) = fold c) (by decide) hc
  · unfold fold
    rw [toLower_of_not_ascii hc]
    split
    · rfl
    · split
      · rfl
      · exact toLower_of_not_ascii hc

/-- Unicode as far as ASCII goes. -/
def Unicode.ascii : Unicode where
  isWord c := (fold c).isAlphanum || fold c == '_'
  toLowercase s := s.map Char.toLower
  word_ascii _ hc := ascii_forall
    (P := fun c => ((fold c).isAlphanum || fold c == '_') = (c.isAlphanum || c == '_')) (by decide) hc
  word_space c hc := by
    rw [fold_space hc]
    simp only [isRustWhitespace, isCommonWhitespace, Bool.or_eq_true, Bool.and_eq_true, decide_eq_true_eq,
      beq_iff_eq] at hc
    unfold Char.isAlphanum Char.isAlpha Char.isUpper Char.isLower Char.isDigit
    simp only [ge_iff_le, Bool.or_eq_false_iff, Bool.and_eq_false_iff, decide_eq_false_iff_not,
      UInt32.le_iff_toNat_le, beq_eq_false_iff_ne, ne_eq]
    have hval : c.val.toNat = c.toNat := rfl
    have hline : c ≠ '_' := by
      rintro rfl
      simp at hc
    simp only [hval, hline, not_false_eq_true, and_true]
    change (¬ (65 ≤ c.toNat ∧ c.toNat ≤ 90) ∧ (¬ 97 ≤ c.toNat ∨ ¬ c.toNat ≤ 122)) ∧ (¬ 48 ≤ c.toNat ∨ ¬ c.toNat ≤ 57)
    omega
  word_fold c := by rw [fold_fold]
  lower_plain _ _ := rfl

/-- A word that is too short for a verb is a subject. -/
example : Subject .ascii where
  text := ['x']
  lower := rfl
  words := by decide
  verbFree front v back h hverb := by
    exfalso
    obtain ⟨w, hw, hstarts⟩ := hverb.first
    have hlong : ∀ w ∈ singles ++ modals, 2 ≤ w.toList.length := by decide
    have hle := (hlong w hw).trans hstarts.length_le
    have hlen := congrArg List.length h
    simp only [List.length_map, List.length_append, List.length_singleton] at hle hlen
    omega

/-- `should not block`, and what the expression makes of it. -/
def shouldNotBlock (m : Match Char) (hm : m ∈ captures (directiveRegex .ascii) "should not block".toList)
    (hstart : m.start = 0) : NegativePlace .ascii where
  phrase := .shouldNot
  before := []
  first := "should".toList
  inner := [' ']
  second := "not".toList
  gap := [' ']
  word := 'b'
  after := "lock".toList
  directive := m
  first_spells := rfl
  second_spells := rfl
  inner_space := by simp [isRustWhitespace, isCommonWhitespace]
  inner_empty := by decide
  gap_space := by simp [isRustWhitespace, isCommonWhitespace]
  gap_ne := by decide
  isWord := by decide
  yielded := hm
  at_phrase := hstart

/-- `should not` is an affirmative `should`. -/
theorem shouldNot_not_polar : ¬ Polar ℚ Unicode.ascii := by
  intro h
  have hm : ∃ m ∈ captures (directiveRegex .ascii) "should not block".toList, m.start = 0 := by decide
  obtain ⟨m, hm, hstart⟩ := hm
  exact (shouldNotBlock m hm hstart).not_correct_of_unknown id (h.directives _)

end Unimatrix.Contradiction
