import Unimatrix.Install.Text
import Unimatrix.Lib.Fields
import Unimatrix.Lib.Pattern

/-!
# Merging the hook settings

Model of `merge-settings.js`: which hook entries are recognised as the installer's own, and `mergeSettings`, which writes
one such entry for every event of its command source and takes away all others.

* `content` is an object whose `hooks` are `HooksValue` and whose other keys are kept as they are. The array of an event has
  groups (`Group`), a group has a `hooks` array or none, and entries are any values. An absent and an empty `matcher`
  differ, as `===` sees them.
* The entry that a run keeps is found again by identity (`hook !== kept`). So an entry carries which of the objects of this
  run it is (`Hook.created`); what was read from the file is none of them.
* `JSON.stringify` writes what `JSON.parse` reads again, so the file is its content. The paths are POSIX paths.
-/

namespace Unimatrix.MergeSettings

open Install

/-! ## Recognised commands -/

/-- `\s`. -/
def space : Pattern UInt16 := .letter isSpace

/-- `name\s+hook\s`. -/
def hookPattern (name : Text) : Pattern UInt16 :=
  .seq (.word name) (.seq (.plus space) (.seq (.word (units "hook")) space))

/-- `[/\\]`. -/
def separator : Pattern UInt16 := .letter fun c => c == unit '/' || c == unit '\\'

/-- `[/\\]hook-client[/\\]index\.js`. -/
def clientFile : Pattern UInt16 :=
  .seq separator (.seq (.word (units "hook-client")) (.seq separator (.word (units "index.js"))))

/-- The path between two quotes. -/
def quotedClient (quote : UInt16) : Pattern UInt16 :=
  .seq (.word [quote]) (.seq (.star (.letter (· != quote))) (.seq clientFile (.word [quote])))

/-- `\S+[/\\]hook-client[/\\]index\.js`. -/
def bareClient : Pattern UInt16 := .seq (.plus (.letter fun c => !isSpace c)) clientFile

/-- The fifth pattern behind its first group. -/
def nodePattern : Pattern UInt16 :=
  .seq (.word (units "node")) (.seq (.optional (.word (units ".exe"))) (.seq (.plus space)
    (.seq (.alt (quotedClient (unit '"')) (.alt (quotedClient (unit '\'')) bareClient)) space)))

/-- `[\s"'/\\]`. -/
def nodeBoundary : Pattern UInt16 :=
  .letter fun c => isSpace c || c == unit '"' || c == unit '\'' || c == unit '/' || c == unit '\\'

/-- `UNIMATRIX_PATTERNS`, each as its `test`. -/
def unimatrixPatterns : List (Text → Bool) :=
  [(hookPattern (units "unimatrix")).matchPrefix,
    (hookPattern (units "unimatrix-server")).matchPrefix,
    (hookPattern (units "/unimatrix")).search,
    (hookPattern (units "/unimatrix-server")).search,
    fun command => nodePattern.matchPrefix command || (Pattern.seq nodeBoundary nodePattern).search command]

/-- `isUnimatrixHook`. -/
def isUnimatrixHook (hookEntry : JsValue) : Bool :=
  match hookEntry.get (units "command") with
  | some (.string command) => !command.isEmpty && unimatrixPatterns.any fun test => test command
  | _ => false

/-! ## Events and commands -/

/-- `HOOK_EVENTS`. -/
def hookEvents : List Text :=
  ["SessionStart", "Stop", "UserPromptSubmit", "PreToolUse", "PostToolUse", "PostToolUseFailure", "PreCompact",
    "SubagentStart", "SubagentStop"].map units

/-- `PRETOOLUSE_CYCLE_MATCHER`. -/
def preToolUseCycleMatcher : Text := units "^context_cycle$|^mcp__unimatrix__context_cycle$"

/-- `SUBAGENT_STOP_EVENT`. -/
def subagentStopEvent : Text := units "SubagentStop"

/-- `EVENT_MATCHERS`. -/
def eventMatchers : List (Text × Text) :=
  [(units "SessionStart", units ""), (units "Stop", units ""), (units "UserPromptSubmit", units ""),
    (units "PreToolUse", preToolUseCycleMatcher), (units "PostToolUse", units "*"),
    (units "PostToolUseFailure", units "*"), (units "PreCompact", units ""), (units "SubagentStart", units "*"),
    (units "SubagentStop", units "*")]

/-- `EVENT_MATCHERS[event]`. -/
def eventMatcher (event : Text) : Option Text :=
  (eventMatchers.find? fun e => e.1 = event).map Prod.snd

/-- `buildHookClientCommand`. -/
def buildHookClientCommand (clientPath event : Text) (providerHint : Option Text) : Text :=
  let quoted := if clientPath.any isSpace then units "\"" ++ clientPath ++ units "\"" else clientPath
  let base := units "node " ++ quoted ++ units " " ++ event
  match providerHint with
  | some hint => if hint.isEmpty then base else base ++ units " --provider " ++ hint
  | none => base

/-- `path.dirname`. -/
def dirname : Text → Text
  | [] => units "."
  | c :: rest =>
    -- trailing separators and the last component, from the end
    match (rest.reverse.dropWhile (· == unit '/')).dropWhile (· != unit '/') with
    | [] => if c = unit '/' then units "/" else units "."
    | _ :: back => if c = unit '/' ∧ back = [] then units "//" else c :: back.reverse

/-- `{ events, commandForEvent }`. -/
structure CommandSource where
  events : List Text
  commandForEvent : Text → Text

/-- `normalizeCommandSource`. -/
def normalizeCommandSource : Text ⊕ CommandSource → CommandSource
  | .inl binaryPath =>
    let binDir := dirname binaryPath
    ⟨hookEvents, fun event =>
      units "LD_LIBRARY_PATH=" ++ binDir ++ units " " ++ binaryPath ++ units " hook " ++ event⟩
  | .inr cs => cs

/-- The command source of a remote client, as `init.js` and `wire.js` write it. -/
def clientSource (clientPath : Text) : CommandSource :=
  ⟨hookEvents, fun event => buildHookClientCommand clientPath event none⟩

/-- `subagentStopEnabled`, of what the file holds, if it can be read. -/
def subagentStopEnabled (parsed : Option JsValue) : Bool :=
  match ((parsed.bind (·.get (units "unimatrix"))).bind (·.get (units "hooks"))).bind
      (·.get (units "subagent_stop")) with
  | some (.bool true) => true
  | _ => false

/-! ## Settings -/

/-- A matcher group, with entries of type `E`. -/
structure Group (E : Type) where
  matcher : Option JsValue
  hooks : Option (List E)
  others : List (Text × JsValue)

/-- `content.hooks`. -/
inductive HooksValue where
  /-- Absent, or another value that is false in a condition. -/
  | falsy
  | object (hooks : Fields Text (List (Group JsValue)))
  /-- An array, or a value that is no object. -/
  | other

/-- What the file holds. -/
structure Settings where
  hooks : HooksValue
  others : List (Text × JsValue)

/-- The file. -/
inductive SettingsFile where
  | absent
  | blank
  | malformed (message : Text)
  | parsed (content : Settings)

/-! ## One event -/

/-- An entry, and which of the objects that this run made it is. -/
structure Hook where
  value : JsValue
  created : Option Nat

/-- What was read from the file. -/
def Hook.read (value : JsValue) : Hook := ⟨value, none⟩

variable {E F : Type}

/-- A group with other entries. -/
def Group.map (f : E → F) (g : Group E) : Group F := ⟨g.matcher, g.hooks.map (List.map f), g.others⟩

/-- `matcherGroup.matcher === matcher`. -/
def Group.matches (g : Group E) (matcher : Option Text) : Bool :=
  match g.matcher, matcher with
  | none, none => true
  | some (.string s), some m => s == m
  | _, _ => false

/-- `newHookEntry`. -/
def newHookEntry (command : Text) : JsValue :=
  .object [(units "type", .string (units "command")), (units "command", .string command)]

/-- Where the recognised entries of a group are, counted from `i`: `existingIndex` is the first of them and
`duplicateIndices` the others. -/
def ownedIndices (i : Nat) : List Hook → List Nat
  | [] => []
  | hook :: hooks =>
    if isUnimatrixHook hook.value then i :: ownedIndices (i + 1) hooks else ownedIndices (i + 1) hooks

/-- Step 3 in the group that was found. -/
def mergeIntoGroup (event : Text) (newEntry : Hook) (hooks : List Hook) : List Hook × List Text :=
  match ownedIndices 0 hooks with
  | [] => (hooks ++ [newEntry], [units "Added hook: " ++ event])
  | existingIndex :: duplicateIndices =>
    -- the last duplicate is spliced out first
    ((duplicateIndices.foldr (fun i hooks => hooks.eraseIdx i) hooks).set existingIndex newEntry,
      duplicateIndices.map (fun _ => units "Removed duplicate unimatrix hook for " ++ event) ++
        [units "Updated hook: " ++ event])

/-- The loop of step 3 over the groups of an event. -/
def mergeIntoGroups (event : Text) (matcher : Option Text) (newEntry : Hook) :
    List (Group Hook) → List (Group Hook) × List Text
  | [] => ([⟨matcher.map .string, some [newEntry], []⟩],
      [units "Added hook: " ++ event ++ units " (new matcher group)"])
  | group :: groups =>
    if group.matches matcher then
      let merged := mergeIntoGroup event newEntry (group.hooks.getD [])
      (⟨group.matcher, some merged.1, group.others⟩ :: groups, merged.2)
    else
      let merged := mergeIntoGroups event matcher newEntry groups
      (group :: merged.1, merged.2)

/-- `group.hooks.filter(keep)`. -/
def Group.filter (keep : E → Bool) (g : Group E) : Group E := ⟨g.matcher, g.hooks.map (List.filter keep), g.others⟩

/-- The group has entries. -/
def Group.occupied (g : Group E) : Bool := !(g.hooks.getD []).isEmpty

/-- The loop over the groups of an event that takes entries out, and groups that have none then. -/
def pruneGroups (keep : Hook → Bool) (action : Text) (groups : List (Group Hook)) :
    List (Group Hook) × List Text :=
  ((groups.map (Group.filter keep)).filter Group.occupied,
    (groups.filter fun g => (g.hooks.getD []).any fun hook => !keep hook).map fun _ => action)

/-! ## All events -/

/-- The variables of `mergeSettings`: the hooks, `keptEntryByEvent`, how many entries were made, and the actions. -/
structure Run where
  hooks : Fields Text (List (Group Hook))
  keptEntryByEvent : Fields Text Nat
  created : Nat
  actions : List Text

/-- Step 3 for one event. -/
def mergeEvent (source : CommandSource) (s : Run) (event : Text) : Run :=
  let newEntry : Hook := ⟨newHookEntry (source.commandForEvent event), some s.created⟩
  let merged := mergeIntoGroups event (eventMatcher event) newEntry ((s.hooks.get event).getD [])
  ⟨s.hooks.set event merged.1, s.keptEntryByEvent.set event s.created, s.created + 1, s.actions ++ merged.2⟩

/-- `isUnimatrixHook(hook) && hook !== kept`. -/
def isStale (kept : Option Nat) (hook : Hook) : Bool :=
  isUnimatrixHook hook.value && !(hook.created.isSome && hook.created == kept)

/-- Step 3c for one event. -/
def pruneStale (s : Run) (event : Text) : Run :=
  match s.hooks.get event with
  | none => s
  | some eventArray =>
    let pruned := pruneGroups (fun hook => !isStale (s.keptEntryByEvent.get event) hook)
      (units "Removed stale unimatrix hook: " ++ event ++ units " (cross-matcher migration)") eventArray
    { s with hooks := s.hooks.set event pruned.1, actions := s.actions ++ pruned.2 }

/-- `pruneUnimatrixEvent`. -/
def pruneUnimatrixEvent (s : Run) (event : Text) : Run :=
  match s.hooks.get event with
  | none => s
  | some eventArray =>
    let pruned := pruneGroups (fun hook => !isUnimatrixHook hook.value)
      (units "Removed unimatrix hook: " ++ event ++ units " (opt-out)") eventArray
    { s with
      hooks := if pruned.1.isEmpty then s.hooks.erase event else s.hooks.set event pruned.1
      actions := s.actions ++ pruned.2 }

/-- Steps 3, 3c and 3b. -/
def mergeEvents (source : CommandSource) (events : List Text) (hooks : Fields Text (List (Group JsValue)))
    (actions : List Text) : Run :=
  let merged := events.foldl (mergeEvent source) ⟨hooks.map (List.map (Group.map Hook.read)), .empty, 0, actions⟩
  let pruned := events.foldl pruneStale merged
  (hookEvents.filter fun event => !events.contains event).foldl pruneUnimatrixEvent pruned

/-- The events that are registered: `SubagentStop` only if it is opted in. -/
def registeredEvents (source : CommandSource) (optIn : Option JsValue) : List Text :=
  if source.events.contains subagentStopEvent && !subagentStopEnabled optIn then
    source.events.filter fun event => event != subagentStopEvent
  else source.events

/-- What `mergeSettings` returns, and the file it leaves. -/
structure Merge where
  actions : List Text
  content : Settings
  file : SettingsFile

/-- Step 1: what the file holds, and the first action. -/
def readSettings (filePath : Text) : SettingsFile → Except Text (Settings × List Text)
  | .absent => .ok (⟨.falsy, []⟩, [units "Created .claude/settings.json"])
  | .blank => .ok (⟨.falsy, []⟩, [units "settings.json was empty, initializing"])
  | .malformed message => .error (units "Malformed .claude/settings.json: " ++ message ++
      units "\nFix the JSON syntax manually and re-run 'npx unimatrix init'.\nFile: " ++ filePath)
  | .parsed content => .ok (content, [])

/-- Step 2: the hooks, if they are an object or can be made one. -/
def readHooks (filePath : Text) : HooksValue → Except Text (Fields Text (List (Group JsValue)))
  | .falsy => .ok .empty
  | .object hooks => .ok hooks
  | .other => .error (units (".claude/settings.json 'hooks' key is not an object." ++
      "\nExpected: \x7b \"hooks\": \x7b \"EventName\": [...] \x7d \x7d\nFile: ") ++ filePath)

/-- `mergeSettings`. -/
def mergeSettings (filePath : Text) (file : SettingsFile) (commandSource : Text ⊕ CommandSource)
    (optIn : Option JsValue) (dryRun : Bool) : Except Text Merge := do
  let source := normalizeCommandSource commandSource
  let events := registeredEvents source optIn
  let (content, actions) ← readSettings filePath file
  let hooks ← readHooks filePath content.hooks
  let s := mergeEvents source events hooks actions
  let content' : Settings := ⟨.object (s.hooks.map (List.map (Group.map Hook.value))), content.others⟩
  .ok ⟨if dryRun then s.actions.map (units "[dry-run] " ++ ·) else s.actions, content',
    if dryRun then file else .parsed content'⟩

end Unimatrix.MergeSettings
