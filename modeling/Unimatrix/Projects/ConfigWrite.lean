import Unimatrix.Config.Validate
import Unimatrix.Hook.TopicSignal
import Unimatrix.Wire.Requests

/-!
# The stanzas of `config.toml`

Model of the document that `ensure_project_stanza` (`config_write.rs`) reads and writes. `fromStr` and `toStringPretty` are
those of the `toml` crate; the order of keys in a table is left out, and so are the values that no project has.

* A document with stanzas added to it (`withStanzas`) keeps every other key and the stanzas that it has, in place.
* **`newText_eq_ok`**: what is written is the document that was read, with one stanza that it did not have.
-/

namespace Unimatrix.Projects

open Config Wire TopicSignal

/-- `toml::Value`. -/
inductive Toml where
  | string (s : String)
  | array (items : List Toml)
  | table (fields : List (String × Toml))
  | other (text : List Char)

/-- The value of a key. -/
def field? (fields : List (String × Toml)) (key : String) : Option Toml :=
  (fields.find? fun f => f.1 = key).map Prod.snd

/-- `Value::get`, with a name. -/
def Toml.get (v : Toml) (key : String) : Option Toml :=
  match v with
  | .table fields => field? fields key
  | _ => none

/-- `Value::as_str`. -/
def Toml.asStr : Toml → Option String
  | .string s => some s
  | _ => none

/-- The slug of a stanza. -/
def slugOf (entry : Toml) : Option String := (entry.get "slug").bind Toml.asStr

/-- A stanza. -/
def stanza (slug : String) : Toml := .table [("slug", .string slug)]

/-- The table with another value of a key. -/
def setField (fields : List (String × Toml)) (key : String) (v : Toml) : List (String × Toml) :=
  match fields with
  | [] => [(key, v)]
  | f :: fs => if f.1 = key then (key, v) :: fs else f :: setField fs key v

/-- What `ensure_project_stanza` fails with. -/
inductive StanzaError where
  | malformed
  | notTable
  | notArray
  | serialize
  | writeTemp
  | install
  deriving DecidableEq

/-- The array under `projects`, or an empty one. -/
def projectsOf (fields : List (String × Toml)) : Except StanzaError (List Toml) :=
  match field? fields "projects" with
  | none => .ok []
  | some (.array items) => .ok items
  | some _ => .error .notArray

/-- The second step of `ensure_project_stanza`: the document with the stanza, unless it is there. -/
def appendStanza (doc : Toml) (slug : String) : Except StanzaError (Option Toml) :=
  match doc with
  | .table fields => do
    let array ← projectsOf fields
    if array.any fun entry => decide (slugOf entry = some slug) then return none
    else return some (.table (setField fields "projects" (.array (array ++ [stanza slug]))))
  | _ => .error .notTable

section Document

variable (fromStr : List Char → Option Toml)

/-- `read_to_string(..).unwrap_or_default()`. -/
def textOf (content : Option (List UInt8)) : List Char := (content.bind fromUtf8).getD []

/-- The first step of `ensure_project_stanza`: the document in a text. -/
def docOf (text : List Char) : Option Toml :=
  if Words.trim isRustWhitespace text = [] then some (.table []) else fromStr text

variable (toStringPretty : Toml → Option (List Char))

/-- What `ensure_project_stanza` writes for the text that it has read, if anything. -/
def newText (text : List Char) (slug : String) : Except StanzaError (Option (List Char)) :=
  match docOf fromStr text with
  | none => .error .malformed
  | some doc => do
    match ← appendStanza doc slug with
    | none => return none
    | some doc' =>
      match toStringPretty doc' with
      | none => .error .serialize
      | some text' => return some text'

end Document

/-! ## Documents with stanzas added -/

/-- The stanzas of a document. -/
def itemsOf (doc : Toml) : List Toml :=
  match doc.get "projects" with
  | some (.array items) => items
  | _ => []

/-- The slugs of a document. -/
def slugsOf (doc : Toml) : List String := (itemsOf doc).filterMap slugOf

/-- The document with stanzas for more slugs. -/
def withStanzas (doc : Toml) (added : List String) : Toml :=
  match doc with
  | .table fields => .table (setField fields "projects" (.array (itemsOf doc ++ added.map stanza)))
  | _ => doc

@[simp] theorem field?_setField (fields : List (String × Toml)) (key : String) (v : Toml) (other : String) :
    field? (setField fields key v) other = if other = key then some v else field? fields other := by
  induction fields with
  | nil =>
    unfold setField field?
    by_cases h : key = other
    · simp [h]
    · simp [h, Ne.symm h]
  | cons f fs ih =>
    unfold field? at ih ⊢
    unfold setField
    by_cases hf : f.1 = key
    · by_cases h : key = other
      · simp [hf, h]
      · simp [hf, h, Ne.symm h]
    · rw [if_neg hf]
      by_cases hother : f.1 = other
      · have hne : other ≠ key := fun h => hf (hother.trans h)
        simp [hother, hne]
      · simpa [List.find?_cons, hother] using ih

theorem setField_setField (fields : List (String × Toml)) (key : String) (v w : Toml) :
    setField (setField fields key v) key w = setField fields key w := by
  induction fields with
  | nil => simp [setField]
  | cons f fs ih =>
    by_cases hf : f.1 = key
    · simp [setField, hf]
    · simp [setField, hf, ih]

theorem slugOf_stanza (slug : String) : slugOf (stanza slug) = some slug := by
  simp [slugOf, stanza, Toml.get, field?, Toml.asStr]

section Stanzas

variable {doc : Toml} {added : List String} {slug : String}

/-- **The other keys stay as they are.** -/
theorem get_withStanzas {key : String} (h : key ≠ "projects") : (withStanzas doc added).get key = doc.get key := by
  cases doc with
  | table fields => simp [withStanzas, Toml.get, h]
  | _ => rfl

theorem itemsOf_withStanzas {fields : List (String × Toml)} :
    itemsOf (withStanzas (.table fields) added) = itemsOf (.table fields) ++ added.map stanza := by
  simp [withStanzas, itemsOf, Toml.get]

theorem withStanzas_withStanzas (more : List String) :
    withStanzas (withStanzas doc added) more = withStanzas doc (added ++ more) := by
  cases doc with
  | table fields =>
    have hitems : itemsOf (.table (setField fields "projects" (.array (itemsOf (.table fields) ++ added.map stanza)))) =
        itemsOf (.table fields) ++ added.map stanza := itemsOf_withStanzas
    simp only [withStanzas, hitems, setField_setField, List.map_append, List.append_assoc]
  | _ => rfl

theorem projectsOf_eq_ok {fields : List (String × Toml)} {array : List Toml} (h : projectsOf fields = .ok array) :
    itemsOf (.table fields) = array := by
  unfold projectsOf at h
  cases hfield : field? fields "projects" with
  | none =>
    rw [hfield] at h
    cases h
    simp [itemsOf, Toml.get, hfield]
  | some v =>
    rw [hfield] at h
    cases v with
    | array items =>
      cases h
      simp [itemsOf, Toml.get, hfield]
    | _ => cases h

/-- What is appended: the one stanza, which was not there. -/
theorem appendStanza_eq_ok {doc' : Toml} (h : appendStanza doc slug = .ok (some doc')) :
    doc' = withStanzas doc [slug] ∧ slug ∉ slugsOf doc := by
  cases doc with
  | table fields =>
    obtain ⟨array, harray, h⟩ := Except.bind_eq_ok.mp h
    have hitems := projectsOf_eq_ok harray
    split_ifs at h with hany
    · cases h
    · cases h
      refine ⟨?_, fun hmem => hany ?_⟩
      · simp only [withStanzas, hitems, List.map_cons, List.map_nil]
      · obtain ⟨entry, hentry, hslug⟩ := List.mem_filterMap.mp hmem
        exact List.any_eq_true.mpr ⟨entry, hitems ▸ hentry, decide_eq_true hslug⟩
  | _ => cases h

theorem slugsOf_withStanzas {fields : List (String × Toml)} :
    slugsOf (withStanzas (.table fields) added) = slugsOf (.table fields) ++ added := by
  have hadded : added.filterMap (slugOf ∘ stanza) = added := by
    refine (List.filterMap_congr fun s _ => slugOf_stanza s).trans ?_
    exact List.filterMap_some
  unfold slugsOf
  rw [itemsOf_withStanzas, List.filterMap_append, List.filterMap_map, hadded]

/-- **What is written**: the document that was read, with the stanza that it did not have. -/
theorem newText_eq_ok {fromStr : List Char → Option Toml} {toStringPretty : Toml → Option (List Char)}
    {text text' : List Char} (h : newText fromStr toStringPretty text slug = .ok (some text')) : ∃ fields,
      docOf fromStr text = some (.table fields) ∧ slug ∉ slugsOf (.table fields) ∧
        toStringPretty (withStanzas (.table fields) [slug]) = some text' := by
  unfold newText at h
  split at h
  · cases h
  rename_i doc hdoc
  obtain ⟨appended, happend, h⟩ := Except.bind_eq_ok.mp h
  split at h
  · cases h
  rename_i doc'
  split at h
  · cases h
  rename_i printed hprint
  cases h
  cases doc with
  | table fields =>
    obtain ⟨rfl, hslug⟩ := appendStanza_eq_ok happend
    exact ⟨fields, hdoc, hslug, hprint⟩
  | _ => cases happend

end Stanzas

end Unimatrix.Projects
