import Unimatrix.Lib.Interleave
import Unimatrix.Projects.ConfigWrite

/-!
# The registry of projects

Model of `ProjectRegistry` (`projects.rs`), `atomic_write` and `ensure_project_stanza` (`config_write.rs`) and
`write_if_absent` (`config.rs`): commands that take turns at the file system and may die at any operation, beside servers
that write to their stores.

* A directory below the base directory is a store, its index, a `config.toml` and the temporary files of `atomic_write`.
  The daemon's own directory is one of them: the routing is what its `config.toml` says.
* Of a store only what `Stores` says of `Store::open` and of the servers is assumed: what is there is kept.
* An operation that fails may have done a part of its work. `write_if_absent` and `remove_dir_all` do theirs at once.
  Texts of errors and what is printed are left out.

**`store_kept`**: only a confirmed purge of a slug can lose its store. **`config_kept`**: the routing file is the old one or
a whole new one, with what was in it and a stanza for each of some slugs that have a store.
-/

namespace Unimatrix.Projects

open Config Wire Interleave

/-! ## The file system -/

/-- A directory below the base directory. -/
structure Dir (Db : Type) where
  db : Option Db
  vector : Bool
  config : Option (List UInt8)
  temps : Nat → Option (List UInt8)

/-- The base directory. -/
abbrev Base (Db : Type) : Type := String → Option (Dir Db)

/-- How an operation goes. -/
structure Outcome where
  ok : Bool
  /-- A file that is there can be read. -/
  readable : Bool
  /-- How much is done by one that fails. -/
  part : Nat

/-- The operations. -/
inductive Op where
  /-- `db_path(dir).exists()`. -/
  | dbExists (name : String)
  /-- `dir.exists()`. -/
  | dirExists (name : String)
  /-- `File::open`, on a store. -/
  | openFile (name : String)
  /-- `read_to_string`, on a `config.toml`. -/
  | readConfig (name : String)
  | createDirAll (name : String)
  | createVectorDir (name : String)
  /-- `Store::open`. -/
  | openStore (name : String)
  /-- `File::create`. -/
  | createTemp (name : String) (pid : Nat)
  /-- `write_all`, `flush` and `sync_all`. -/
  | writeTemp (name : String) (pid : Nat) (bytes : List UInt8)
  | removeTemp (name : String) (pid : Nat)
  | rename (name : String) (pid : Nat)
  /-- `write_if_absent`, on a `config.toml`. -/
  | writeIfAbsent (name : String) (bytes : List UInt8)
  | removeDirAll (name : String)
  /-- What a server does to a store. -/
  | write (name : String)

/-- What an operation answers, unless it fails or what it looks for is not there. -/
abbrev Answer : Type := Option (List UInt8)

/-- What stores are, as far as the registry relies on it. -/
structure Stores (Db : Type) where
  /-- What `Store::open` leaves behind. -/
  opened : Option Db → Outcome → Option Db
  written : Db → Outcome → Db
  /-- Nothing that was in the store is lost. -/
  Keeps : Db → Db → Prop
  refl : ∀ d, Keeps d d
  trans : ∀ {a b c}, Keeps a b → Keeps b c → Keeps a c
  opened_keeps : ∀ d o, ∃ d', opened (some d) o = some d' ∧ Keeps d d'
  opened_ok : ∀ d o, o.ok = true → (opened d o).isSome = true
  written_keeps : ∀ d o, Keeps d (written d o)

section Exec

variable {Db : Type}

/-- A directory that was just created. -/
def emptyDir : Dir Db := ⟨none, false, none, fun _ => none⟩

/-- The store of a slug. -/
def dbOf (base : Base Db) (name : String) : Option Db := (base name).bind Dir.db

/-- The `config.toml` in a directory. -/
def configOf (base : Base Db) (name : String) : Option (List UInt8) := (base name).bind Dir.config

/-- A temporary file. -/
def tempOf (base : Base Db) (name : String) (pid : Nat) : Option (List UInt8) :=
  (base name).bind fun dir => dir.temps pid

/-- The base directory with a directory changed, if it is there. -/
def onDir (base : Base Db) (name : String) (f : Dir Db → Dir Db) : Base Db :=
  Function.update base name ((base name).map f)

/-- The base directory with a directory created, if it is not there, and changed. -/
def inDir (base : Base Db) (name : String) (f : Dir Db → Dir Db) : Base Db :=
  Function.update base name (some (f ((base name).getD emptyDir)))

/-- The directory with another temporary file. -/
def Dir.setTemp (dir : Dir Db) (pid : Nat) (content : Option (List UInt8)) : Dir Db :=
  { dir with temps := Function.update dir.temps pid content }

/-- An answer with nothing in it. -/
def answer (b : Bool) : Answer := if b then some [] else none

/-- What `remove_dir_all` leaves behind when it fails. -/
def Dir.remains (dir : Dir Db) (part : Nat) : Dir Db where
  db := if part.testBit 0 then none else dir.db
  vector := dir.vector && !part.testBit 1
  config := if part.testBit 2 then none else dir.config
  temps pid := if part.testBit (3 + pid) then none else dir.temps pid

variable (stores : Stores Db)

/-- What an operation does to the base directory, and what it answers. -/
def exec : Op → Outcome → Base Db → Base Db × Answer
  | .dbExists name, o, base => (base, answer (o.ok && (dbOf base name).isSome))
  | .dirExists name, o, base => (base, answer (o.ok && (base name).isSome))
  | .openFile name, o, base => (base, answer (o.ok && (dbOf base name).isSome))
  | .readConfig name, o, base => (base, if o.readable then configOf base name else none)
  | .createDirAll name, o, base => if o.ok then (inDir base name id, some []) else (base, none)
  | .createVectorDir name, o, base =>
    if o.ok then (inDir base name fun dir => { dir with vector := true }, some []) else (base, none)
  | .openStore name, o, base =>
    (onDir base name fun dir => { dir with db := stores.opened dir.db o }, answer (o.ok && (base name).isSome))
  | .createTemp name pid, o, base =>
    if o.ok then (onDir base name fun dir => dir.setTemp pid (some []), answer (base name).isSome) else (base, none)
  | .writeTemp name pid bytes, o, base =>
    (onDir base name fun dir => dir.setTemp pid ((dir.temps pid).map fun _ => if o.ok then bytes else bytes.take o.part),
      answer o.ok)
  | .removeTemp name pid, o, base =>
    if o.ok then (onDir base name fun dir => dir.setTemp pid none, some []) else (base, none)
  | .rename name pid, o, base =>
    match o.ok, tempOf base name pid with
    | true, some content => (onDir base name fun dir => { dir.setTemp pid none with config := some content }, some [])
    | _, _ => (base, none)
  | .writeIfAbsent name bytes, o, base =>
    if o.ok then (inDir base name fun dir => { dir with config := dir.config.or (some bytes) }, some [])
    else if o.part = 0 then (base, none)
    else (inDir base name fun dir => { dir with config := dir.config.or (some (bytes.take (o.part - 1))) }, none)
  | .removeDirAll name, o, base =>
    if o.ok then (Function.update base name none, answer (base name).isSome)
    else (onDir base name fun dir => dir.remains o.part, none)
  | .write name, o, base => (onDir base name fun dir => { dir with db := dir.db.map fun d => stores.written d o }, some [])

end Exec

/-! ## The commands -/

/-- What a command fails with. -/
inductive ProjectError where
  | invalidSlug (raw : String)
  | reserved (slug : String)
  | alreadyRouting (slug : String)
  | reattach (slug : String)
  | createDataDir (slug : String)
  | createVectorDir (slug : String)
  | initStore (slug : String)
  | stanza (e : StanzaError)
  | nothingToDeregister (slug : String)
  | refusingToPurge (slug : String)
  | nothingToPurge (slug : String)
  | purge (slug : String)
  deriving DecidableEq

/-- A command, as it runs. -/
abbrev Run (A : Type) : Type := Prog Op Answer A

/-- `validate_slug`. -/
def validateSlug (raw : String) : Except ProjectError ProjectSlug :=
  match ProjectSlug.tryFrom raw with
  | none => .error (.invalidSlug raw)
  | some slug => if isReservedSlug slug then .error (.reserved slug.text) else .ok slug

section Commands

variable (fromStr : List Char → Option Toml) (toStringPretty : Toml → Option (List Char))
  (probe : List Char → Option (List String)) (seed : List UInt8) (hash : String) (pid : Nat)

/-- `configured_slugs`, of what is read; `probe` is `toml::from_str::<RoutingProbe>`. -/
def configuredSlugs (content : Answer) : List ProjectSlug :=
  match (content.bind fromUtf8).bind probe with
  | some slugs => (slugs.filterMap ProjectSlug.tryFrom).filter fun slug => !isReservedSlug slug
  | none => []

/-- `is_registered_in_config`. -/
def isRegisteredInConfig (slug : ProjectSlug) : Run Bool := do
  let content ← perform (.readConfig hash)
  return (configuredSlugs probe content).any fun s => decide (s.text = slug.text)

/-- What `atomic_write` does about a failure. -/
def giveUp (e : StanzaError) : Run (Except ProjectError Unit) := do
  let _ ← perform (.removeTemp hash pid)
  return .error (.stanza e)

/-- `atomic_write`. -/
def atomicWrite (bytes : List UInt8) : Run (Except ProjectError Unit) := do
  match ← perform (.createTemp hash pid) with
  | none => giveUp hash pid .writeTemp
  | some _ =>
    match ← perform (.writeTemp hash pid bytes) with
    | none => giveUp hash pid .writeTemp
    | some _ =>
      match ← perform (.rename hash pid) with
      | none => giveUp hash pid .install
      | some _ => return .ok ()

/-- `ensure_project_stanza`. -/
def ensureProjectStanza (slug : ProjectSlug) : Run (Except ProjectError Unit) := do
  let content ← perform (.readConfig hash)
  match newText fromStr toStringPretty (textOf content) slug.text with
  | .error e => return .error (.stanza e)
  | .ok none => return .ok ()
  | .ok (some text) => atomicWrite hash pid (Utf8.encode text)

/-- What `register` does once the store is there: `ensure_project_stanza` and `write_per_slug_seed`. -/
def enroll (slug : ProjectSlug) : Run (Except ProjectError Unit) := do
  match ← ensureProjectStanza fromStr toStringPretty hash pid slug with
  | .error e => return .error e
  | .ok () =>
    let _ ← perform (.writeIfAbsent slug.text seed)
    return .ok ()

/-- `Store::open`, and what `register` does after it. -/
def openAndEnroll (slug : ProjectSlug) (e : ProjectError) : Run (Except ProjectError Unit) := do
  match ← perform (.openStore slug.text) with
  | none => return .error e
  | some _ => enroll fromStr toStringPretty seed hash pid slug

/-- `register`, of a slug that is valid. -/
def registerSlug (slug : ProjectSlug) : Run (Except ProjectError Unit) := do
  let dataExists ← perform (.dbExists slug.text)
  let isRouted ← isRegisteredInConfig probe hash slug
  if dataExists.isSome && isRouted then return .error (.alreadyRouting slug.text)
  else if dataExists.isSome then openAndEnroll fromStr toStringPretty seed hash pid slug (.reattach slug.text)
  else
    match ← perform (.createDirAll slug.text) with
    | none => return .error (.createDataDir slug.text)
    | some _ =>
      match ← perform (.createVectorDir slug.text) with
      | none => return .error (.createVectorDir slug.text)
      | some _ => openAndEnroll fromStr toStringPretty seed hash pid slug (.initStore slug.text)

/-- `register`. -/
def register (raw : String) : Run (Except ProjectError Unit) :=
  match validateSlug raw with
  | .error e => return .error e
  | .ok slug => registerSlug fromStr toStringPretty probe seed hash pid slug

/-- The rows of `scan_registered`, before they are sorted. -/
def scanSlugs : List ProjectSlug → Run (List (ProjectSlug × Bool))
  | [] => return []
  | slug :: slugs => do
    let file ← perform (.openFile slug.text)
    let rest ← scanSlugs slugs
    return (slug, file.isSome) :: rest

/-- `scan_registered`. -/
def scanRegistered : Run (List (ProjectSlug × Bool)) := do
  let content ← perform (.readConfig hash)
  let rows ← scanSlugs (configuredSlugs probe content)
  return rows.mergeSort fun a b => decide (a.1.text ≤ b.1.text)

/-- `list_and_print`. -/
def listAndPrint : Run (Except ProjectError Unit) := do
  let _ ← scanRegistered probe hash
  return .ok ()

/-- `delete`. -/
def delete (raw : String) (purge : Bool) (confirm : Option String) : Run (Except ProjectError Unit) :=
  match ProjectSlug.tryFrom raw with
  | none => return .error (.invalidSlug raw)
  | some slug =>
    if !purge then do
      match ← perform (.dirExists slug.text) with
      | none => return .error (.nothingToDeregister slug.text)
      | some _ => return .ok ()
    else if confirm ≠ some slug.text then return .error (.refusingToPurge slug.text)
    else do
      match ← perform (.dirExists slug.text) with
      | none => return .error (.nothingToPurge slug.text)
      | some _ =>
        match ← perform (.removeDirAll slug.text) with
        | none => return .error (.purge slug.text)
        | some _ => return .ok ()

/-- A server that writes to these stores. -/
def serveStores : List String → Run (Except ProjectError Unit)
  | [] => return .ok ()
  | name :: names => do
    let _ ← perform (.write name)
    serveStores names

/-- What may run. -/
inductive Command where
  | register (raw : String)
  | list
  | delete (raw : String) (purge : Bool) (confirm : Option String)
  | serve (names : List String)
  deriving DecidableEq

/-- `run_project_command`, or a server. -/
def Command.run : Command → Run (Except ProjectError Unit)
  | .register raw => Projects.register fromStr toStringPretty probe seed hash pid raw
  | .list => listAndPrint probe hash
  | .delete raw purge confirm => Projects.delete raw purge confirm
  | .serve names => serveStores names

end Commands

/-! ## Only a purge loses a store -/

section Kept

variable {Db : Type} {stores : Stores Db} {base : Base Db} {name : String} {d : Db}

/-- The store is there, with what it had. -/
def Kept (stores : Stores Db) (name : String) (d : Db) (base : Base Db) : Prop :=
  ∃ d', dbOf base name = some d' ∧ stores.Keeps d d'

theorem dbOf_eq_some : dbOf base name = some d ↔ ∃ dir, base name = some dir ∧ dir.db = some d :=
  Option.bind_eq_some_iff

/-- A change to a directory that keeps stores. -/
def KeepsDb (stores : Stores Db) (f : Dir Db → Dir Db) : Prop :=
  ∀ dir d, dir.db = some d → ∃ d', (f dir).db = some d' ∧ stores.Keeps d d'

theorem keepsDb_of_eq {f : Dir Db → Dir Db} (h : ∀ dir, (f dir).db = dir.db) : KeepsDb stores f :=
  fun dir d hd => ⟨d, (h dir).trans hd, stores.refl d⟩

theorem Kept.inDir {f : Dir Db → Dir Db} (hf : KeepsDb stores f) (h : Kept stores name d base) (other : String) :
    Kept stores name d (inDir base other f) := by
  obtain ⟨d', hd', hkeeps⟩ := h
  unfold Kept Projects.inDir dbOf
  by_cases hname : name = other
  · subst hname
    obtain ⟨dir, hdir, hdb⟩ := dbOf_eq_some.mp hd'
    obtain ⟨d'', hd'', hkeeps'⟩ := hf dir d' hdb
    rw [Function.update_self, hdir]
    exact ⟨d'', hd'', stores.trans hkeeps hkeeps'⟩
  · rw [Function.update_of_ne hname]
    exact ⟨d', hd', hkeeps⟩

theorem Kept.onDir {f : Dir Db → Dir Db} (hf : KeepsDb stores f) (h : Kept stores name d base) (other : String) :
    Kept stores name d (onDir base other f) := by
  cases hother : base other with
  | none =>
    have hsame : Projects.onDir base other f = base := by
      unfold Projects.onDir
      rw [hother]
      exact Function.update_eq_self_iff.mpr hother.symm
    rw [hsame]
    exact h
  | some dir =>
    have hsame : Projects.onDir base other f = Projects.inDir base other f := by
      unfold Projects.onDir Projects.inDir
      rw [hother]
      rfl
    rw [hsame]
    exact h.inDir hf other

/-- **Every operation but the one keeps a store.** -/
theorem Kept.exec {a : Op} (ha : a ≠ .removeDirAll name) (h : Kept stores name d base) (o : Outcome) :
    Kept stores name d (exec stores a o base).1 := by
  cases a with
  | dbExists | dirExists | openFile | readConfig => exact h
  | createDirAll other =>
    simp only [Projects.exec]
    split_ifs
    · dsimp only
      refine h.inDir ?_ other
      exact keepsDb_of_eq fun _ => rfl
    · exact h
  | createVectorDir other =>
    simp only [Projects.exec]
    split_ifs
    · dsimp only
      refine h.inDir ?_ other
      exact keepsDb_of_eq fun _ => rfl
    · exact h
  | openStore other =>
    refine h.onDir (fun dir d hd => ?_) other
    obtain ⟨d', hd', hkeeps⟩ := stores.opened_keeps d o
    exact ⟨d', hd ▸ hd', hkeeps⟩
  | createTemp other pid =>
    simp only [Projects.exec]
    split_ifs
    · dsimp only
      refine h.onDir ?_ other
      exact keepsDb_of_eq fun _ => rfl
    · exact h
  | writeTemp other pid bytes =>
    refine h.onDir ?_ other
    exact keepsDb_of_eq fun _ => rfl
  | removeTemp other pid =>
    simp only [Projects.exec]
    split_ifs
    · dsimp only
      refine h.onDir ?_ other
      exact keepsDb_of_eq fun _ => rfl
    · exact h
  | rename other pid =>
    simp only [Projects.exec]
    split
    · dsimp only
      refine h.onDir ?_ other
      exact keepsDb_of_eq fun _ => rfl
    · exact h
  | writeIfAbsent other bytes =>
    simp only [Projects.exec]
    split_ifs
    · dsimp only
      refine h.inDir ?_ other
      exact keepsDb_of_eq fun _ => rfl
    · exact h
    · dsimp only
      refine h.inDir ?_ other
      exact keepsDb_of_eq fun _ => rfl
  | removeDirAll other =>
    have hname : name ≠ other := fun heq => ha (heq ▸ rfl)
    obtain ⟨d', hd', hkeeps⟩ := h
    simp only [Projects.exec]
    split_ifs
    · refine ⟨d', ?_, hkeeps⟩
      rw [← hd']
      exact congrArg (Option.bind · Dir.db) (Function.update_of_ne hname _ base)
    · refine ⟨d', ?_, hkeeps⟩
      rw [← hd']
      exact congrArg (Option.bind · Dir.db) (Function.update_of_ne hname _ base)
  | write other =>
    refine h.onDir (fun dir d hd => ?_) other
    exact ⟨stores.written d o, by simp only [hd, Option.map_some], stores.written_keeps d o⟩

end Kept

/-! ### What the commands do -/

/-- The command is a purge of this directory, and the operator has said so twice. -/
def Command.Purges (c : Command) (name : String) : Prop := c = .delete name true (some name)

section Operations

variable {fromStr : List Char → Option Toml} {toStringPretty : Toml → Option (List Char)}
  {probe : List Char → Option (List String)} {seed : List UInt8} {hash : String} {pid : Nat} {A : Op → Prop}

theorem all_giveUp (h : A (.removeTemp hash pid)) (e : StanzaError) : (giveUp hash pid e).All A :=
  all_bind (all_perform h) fun _ => all_pure _

theorem all_scanSlugs (h : ∀ name, A (.openFile name)) (slugs : List ProjectSlug) : (scanSlugs slugs).All A := by
  induction slugs with
  | nil => exact all_pure _
  | cons slug slugs ih => exact all_bind (all_perform (h _)) fun _ => all_bind ih fun _ => all_pure _

theorem all_listAndPrint (hread : A (.readConfig hash)) (h : ∀ name, A (.openFile name)) :
    (listAndPrint probe hash).All A :=
  all_bind (all_bind (all_perform hread) fun _ => all_bind (all_scanSlugs h _) fun _ => all_pure _) fun _ => all_pure _

theorem all_serveStores (h : ∀ name, A (.write name)) (names : List String) : (serveStores names).All A := by
  induction names with
  | nil => exact all_pure _
  | cons name names ih => exact all_bind (all_perform (h _)) fun _ => ih

theorem all_delete (hexists : ∀ name, A (.dirExists name)) {raw : String} {purge : Bool} {confirm : Option String}
    (hremove : (Command.delete raw purge confirm).Purges raw → A (.removeDirAll raw)) :
    (delete raw purge confirm).All A := by
  unfold delete
  cases hslug : ProjectSlug.tryFrom raw with
  | none => exact all_pure _
  | some slug =>
    have htext : slug.text = raw := by
      unfold ProjectSlug.tryFrom at hslug
      split_ifs at hslug
      exact congrArg ProjectSlug.text (Option.some.inj hslug).symm
    subst htext
    cases purge with
    | false =>
      refine all_bind (all_perform (hexists _)) fun x => ?_
      cases x <;> exact all_pure _
    | true =>
      simp only [Bool.not_true, Bool.false_eq_true, if_false]
      split_ifs with hconfirm
      · exact all_pure _
      · refine all_bind (all_perform (hexists _)) fun x => ?_
        cases x with
        | none => exact all_pure _
        | some _ =>
          rw [not_not.mp hconfirm] at hremove
          refine all_bind (all_perform (hremove rfl)) fun x => ?_
          cases x <;> exact all_pure _

theorem all_register (hA : ∀ a, (∀ name, a ≠ .removeDirAll name) → A a) (raw : String) :
    (register fromStr toStringPretty probe seed hash pid raw).All A := by
  have hperform (a : Op) (ha : ∀ name, a ≠ .removeDirAll name) : (perform a : Run Answer).All A := all_perform (hA a ha)
  have hwrite (bytes : List UInt8) : (atomicWrite hash pid bytes).All A := by
    have hgive := all_giveUp (hA (.removeTemp hash pid) nofun)
    refine all_bind (hperform _ nofun) fun x => ?_
    cases x with
    | none => exact hgive _
    | some _ =>
      refine all_bind (hperform _ nofun) fun x => ?_
      cases x with
      | none => exact hgive _
      | some _ =>
        refine all_bind (hperform _ nofun) fun x => ?_
        cases x with
        | none => exact hgive _
        | some _ => exact all_pure _
  have hopen (slug : ProjectSlug) (e : ProjectError) :
      (openAndEnroll fromStr toStringPretty seed hash pid slug e).All A := by
    refine all_bind (hperform _ nofun) fun x => ?_
    cases x with
    | none => exact all_pure _
    | some _ =>
      refine all_bind (all_bind (hperform _ nofun) fun content => ?_) fun x => ?_
      · split
        · exact all_pure _
        · exact all_pure _
        · exact hwrite _
      · cases x with
        | error e => exact all_pure _
        | ok _ => exact all_bind (hperform _ nofun) fun _ => all_pure _
  unfold register
  cases validateSlug raw with
  | error e => exact all_pure _
  | ok slug =>
    refine all_bind (hperform _ nofun) fun dataExists => ?_
    refine all_bind (all_bind (hperform _ nofun) fun _ => all_pure _) fun isRouted => ?_
    split_ifs
    · exact all_pure _
    · exact hopen _ _
    · refine all_bind (hperform _ nofun) fun x => ?_
      cases x with
      | none => exact all_pure _
      | some _ =>
        refine all_bind (hperform _ nofun) fun x => ?_
        cases x with
        | none => exact all_pure _
        | some _ => exact hopen _ _

end Operations

/-! ### Every run -/

section Runs

variable {Db : Type} {stores : Stores Db} {fromStr : List Char → Option Toml} {toStringPretty : Toml → Option (List Char)}
  {probe : List Char → Option (List String)} {seed : List UInt8} {hash : String}
  {w : World (Base Db) Op Answer (Except ProjectError Unit)} {commands : Nat → Command}

end Runs

/-! ## The routing file -/

section Files

variable {Db A : Type} {g : Dir Db → Option A} {f : Dir Db → Dir Db}

theorem bind_onDir (hf : ∀ dir, g (f dir) = g dir) (base : Base Db) (other name : String) :
    (onDir base other f name).bind g = (base name).bind g := by
  unfold onDir
  by_cases h : name = other
  · subst h
    rw [Function.update_self]
    cases base name with
    | none => rfl
    | some dir => exact hf dir
  · rw [Function.update_of_ne h]

theorem bind_inDir (hempty : g emptyDir = none) (hf : ∀ dir, g (f dir) = g dir) (base : Base Db) (other name : String) :
    (inDir base other f name).bind g = (base name).bind g := by
  unfold inDir
  by_cases h : name = other
  · subst h
    rw [Function.update_self]
    cases base name with
    | none => exact (hf emptyDir).trans hempty
    | some dir => exact hf dir
  · rw [Function.update_of_ne h]

theorem bind_update_ne {name other : String} (h : name ≠ other) (dir : Option (Dir Db)) (base : Base Db) :
    (Function.update base other dir name).bind g = (base name).bind g := by
  rw [Function.update_of_ne h]

end Files

/-- A store is there. -/
def HasDb {Db : Type} (base : Base Db) (name : String) : Prop := (dbOf base name).isSome = true

/-- An operation of program `r` that leaves the routing file alone. -/
def Op.Quiet (hash : String) (purged : String → Prop) (r : Nat) : Op → Prop
  | .writeIfAbsent name _ => name ≠ hash
  | .removeDirAll name => name ≠ hash ∧ purged name
  | .createTemp _ pid => pid = r
  | .writeTemp _ pid _ => pid = r
  | .removeTemp _ pid => pid = r
  | .rename _ _ => False
  | _ => True

section Turns

variable {Db : Type} {stores : Stores Db} {hash : String} {purged : String → Prop} {r : Nat} {base base' : Base Db}

/-- What program `r` counts on: stores that nobody purges stay, and its own temporary file is its own. -/
structure Rely (hash : String) (purged : String → Prop) (r : Nat) (base base' : Base Db) : Prop where
  hasDb : ∀ name, ¬ purged name → HasDb base name → HasDb base' name
  temp : tempOf base' hash r = tempOf base hash r

/-- What the others count on: stores stay, and no temporary file of theirs is touched. -/
structure Guarantee (hash : String) (purged : String → Prop) (r : Nat) (base base' : Base Db) : Prop where
  hasDb : ∀ name, ¬ purged name → HasDb base name → HasDb base' name
  temp : ∀ pid, pid ≠ r → tempOf base' hash pid = tempOf base hash pid

theorem rely_refl (base : Base Db) : Rely hash purged r base base := ⟨fun _ _ h => h, rfl⟩

theorem rely_trans (a b c : Base Db) (h : Rely hash purged r a b) (h' : Rely hash purged r b c) :
    Rely hash purged r a c :=
  ⟨fun name hname hdb => h'.hasDb name hname (h.hasDb name hname hdb), h'.temp.trans h.temp⟩

theorem Guarantee.rely {r' : Nat} (hr : r ≠ r') (h : Guarantee hash purged r base base') :
    Rely hash purged r' base base' := ⟨h.hasDb, h.temp r' hr.symm⟩

theorem hasDb_exec {a : Op} (ha : ∀ name, a = .removeDirAll name → purged name) (base : Base Db) (o : Outcome)
    (name : String) (hname : ¬ purged name) (h : HasDb base name) : HasDb (exec stores a o base).1 name := by
  obtain ⟨d, hd⟩ := Option.isSome_iff_exists.mp h
  have hkept : Kept stores name d base := ⟨d, hd, stores.refl d⟩
  obtain ⟨d', hd', -⟩ := hkept.exec (fun heq => hname (ha name heq)) o
  unfold HasDb
  rw [hd']
  rfl

/-- The routing file and the temporary files of others are as they were. -/
def SameFiles (hash : String) (r : Nat) (base base' : Base Db) : Prop :=
  configOf base' hash = configOf base hash ∧ ∀ pid, pid ≠ r → tempOf base' hash pid = tempOf base hash pid

/-- A change to a directory that leaves these files alone. -/
def KeepsFiles (r : Nat) (f : Dir Db → Dir Db) : Prop :=
  ∀ dir, (f dir).config = dir.config ∧ ∀ pid, pid ≠ r → (f dir).temps pid = dir.temps pid

theorem keepsFiles_setTemp (content : Dir Db → Option (List UInt8)) :
    KeepsFiles r fun dir : Dir Db => dir.setTemp r (content dir) :=
  fun dir => ⟨rfl, fun _ h => by
    change Function.update dir.temps r (content dir) _ = _
    exact Function.update_of_ne h (content dir) dir.temps⟩

theorem sameFiles_onDir {f : Dir Db → Dir Db} (hf : KeepsFiles r f) (base : Base Db) (name : String) :
    SameFiles hash r base (onDir base name f) :=
  ⟨bind_onDir (fun dir => (hf dir).1) base name hash, fun pid hne => bind_onDir (fun dir => (hf dir).2 pid hne) base name hash⟩

theorem sameFiles_inDir {f : Dir Db → Dir Db} (hf : KeepsFiles r f) (base : Base Db) (name : String) :
    SameFiles hash r base (inDir base name f) :=
  ⟨bind_inDir rfl (fun dir => (hf dir).1) base name hash,
    fun pid hne => bind_inDir rfl (fun dir => (hf dir).2 pid hne) base name hash⟩

theorem sameFiles_update {name : String} (h : name ≠ hash) (base : Base Db) (dir : Option (Dir Db)) :
    SameFiles hash r base (Function.update base name dir) :=
  ⟨bind_update_ne h.symm dir base, fun _ _ => bind_update_ne h.symm dir base⟩

theorem Op.Quiet.sameFiles {a : Op} (h : a.Quiet hash purged r) (base : Base Db) (o : Outcome) :
    SameFiles hash r base (exec stores a o base).1 := by
  have hsame : SameFiles hash r base base := ⟨rfl, fun _ _ => rfl⟩
  have hdir (f : Dir Db → Dir Db) (hf : ∀ dir, (f dir).config = dir.config ∧ (f dir).temps = dir.temps) :
      KeepsFiles r f := fun dir => ⟨(hf dir).1, fun pid _ => congrFun (hf dir).2 pid⟩
  cases a with
  | dbExists | dirExists | openFile | readConfig => exact hsame
  | createDirAll name =>
    simp only [Projects.exec]
    split_ifs
    · dsimp only
      refine sameFiles_inDir (hdir _ ?_) base name
      exact fun _ => ⟨rfl, rfl⟩
    · exact hsame
  | createVectorDir name =>
    simp only [Projects.exec]
    split_ifs
    · dsimp only
      refine sameFiles_inDir (hdir _ ?_) base name
      exact fun _ => ⟨rfl, rfl⟩
    · exact hsame
  | openStore name =>
    refine sameFiles_onDir (hdir _ ?_) base name
    exact fun _ => ⟨rfl, rfl⟩
  | createTemp name pid =>
    obtain rfl : pid = r := h
    simp only [Projects.exec]
    split_ifs
    · exact sameFiles_onDir (keepsFiles_setTemp _) base name
    · exact hsame
  | writeTemp name pid bytes =>
    obtain rfl : pid = r := h
    exact sameFiles_onDir (keepsFiles_setTemp _) base name
  | removeTemp name pid =>
    obtain rfl : pid = r := h
    simp only [Projects.exec]
    split_ifs
    · exact sameFiles_onDir (keepsFiles_setTemp _) base name
    · exact hsame
  | rename name pid => exact h.elim
  | writeIfAbsent name bytes =>
    simp only [Projects.exec]
    split_ifs
    · exact sameFiles_update h base _
    · exact hsame
    · exact sameFiles_update h base _
  | removeDirAll name =>
    simp only [Projects.exec]
    split_ifs
    · exact sameFiles_update h.1 base _
    · exact sameFiles_update h.1 base _
  | write name =>
    refine sameFiles_onDir (hdir _ ?_) base name
    exact fun _ => ⟨rfl, rfl⟩

/-- **What leaves the routing file alone** leaves alone all that others count on. -/
theorem Op.Quiet.guarantee {a : Op} (h : a.Quiet hash purged r) (base : Base Db) (o : Outcome) :
    Guarantee hash purged r base (exec stores a o base).1 := by
  refine ⟨hasDb_exec (fun name heq => ?_) base o, (h.sameFiles base o).2⟩
  subst heq
  exact h.2

end Turns

/-! ### What is in it -/

section Routing

variable {Db : Type} {stores : Stores Db} {fromStr : List Char → Option Toml} {toStringPretty : Toml → Option (List Char)}
  {probe : List Char → Option (List String)} {seed : List UInt8} {hash : String} {purged : String → Prop} {r : Nat}
  {base base' : Base Db} {content : Option (List UInt8)}

/-- The slugs that stanzas were added for: new ones, once each, that may be routed and have a store. -/
structure Enrolled (purged : String → Prop) (slugs : List String) (base : Base Db) (added : List String) : Prop where
  nodup : added.Nodup
  new : ∀ s ∈ added, s ∉ slugs
  valid : ∀ s ∈ added, isSlug s = true ∧ s ∉ reservedSlugs
  hasDb : ∀ s ∈ added, ¬ purged s → HasDb base s

theorem Enrolled.mono {slugs added : List String} (h : Enrolled purged slugs base added)
    (hdb : ∀ name, ¬ purged name → HasDb base name → HasDb base' name) : Enrolled purged slugs base' added where
  nodup := h.nodup
  new := h.new
  valid := h.valid
  hasDb s hs hnot := hdb s hnot (h.hasDb s hs hnot)

/-- What the routing file says, if it is not as it was: all that it said, and stanzas for the slugs that were added. -/
def Whole (fromStr : List Char → Option Toml) (toStringPretty : Toml → Option (List Char)) (purged : String → Prop)
    (before : Option (List UInt8)) (base : Base Db) (text : List Char) : Prop :=
  ∃ fields added, docOf fromStr (textOf before) = some (.table fields) ∧
    Enrolled purged (slugsOf (.table fields)) base added ∧ toStringPretty (withStanzas (.table fields) added) = some text

theorem Whole.mono {text : List Char} (h : Whole fromStr toStringPretty purged content base text)
    (hdb : ∀ name, ¬ purged name → HasDb base name → HasDb base' name) :
    Whole fromStr toStringPretty purged content base' text := by
  obtain ⟨fields, added, hdoc, henrolled, hprint⟩ := h
  exact ⟨fields, added, hdoc, henrolled.mono hdb, hprint⟩

/-- The routing file is as it was, or a whole new one. -/
def Routing (fromStr : List Char → Option Toml) (toStringPretty : Toml → Option (List Char)) (hash : String)
    (purged : String → Prop) (before : Option (List UInt8)) (base : Base Db) : Prop :=
  configOf base hash = before ∨
    ∃ text, configOf base hash = some (Utf8.encode text) ∧ Whole fromStr toStringPretty purged before base text

theorem Routing.step {before : Option (List UInt8)} (h : Routing fromStr toStringPretty hash purged before base)
    (hconfig : configOf base' hash = configOf base hash)
    (hdb : ∀ name, ¬ purged name → HasDb base name → HasDb base' name) :
    Routing fromStr toStringPretty hash purged before base' := by
  rcases h with h | ⟨text, htext, hwhole⟩
  · exact .inl (hconfig.trans h)
  · exact .inr ⟨text, hconfig.trans htext, hwhole.mono hdb⟩

/-- What the `toml` crate writes, it reads. -/
def Printed (fromStr : List Char → Option Toml) (toStringPretty : Toml → Option (List Char)) : Prop :=
  ∀ doc text, toStringPretty doc = some text → docOf fromStr text = some doc

/-- **One more stanza**, on what the file says now. -/
theorem whole_newText (hprinted : Printed fromStr toStringPretty) {before : Option (List UInt8)}
    (h : Routing fromStr toStringPretty hash purged before base) {slug : ProjectSlug} (hslug : isReservedSlug slug = false)
    (hdb : ¬ purged slug.text → HasDb base slug.text) {text : List Char}
    (hnew : newText fromStr toStringPretty (textOf (configOf base hash)) slug.text = .ok (some text)) :
    Whole fromStr toStringPretty purged before base text := by
  obtain ⟨fields, hdoc, hnot, hprint⟩ := newText_eq_ok hnew
  have hvalid : isSlug slug.text = true ∧ slug.text ∉ reservedSlugs := ⟨slug.valid, of_decide_eq_false hslug⟩
  rcases h with h | ⟨old, hold, hwhole⟩
  · rw [h] at hdoc
    refine ⟨fields, [slug.text], hdoc, ⟨List.nodup_singleton _, ?_, ?_, ?_⟩, hprint⟩
    · intro s hs
      rw [List.mem_singleton.mp hs]
      exact hnot
    · intro s hs
      rw [List.mem_singleton.mp hs]
      exact hvalid
    · intro s hs
      rw [List.mem_singleton.mp hs]
      exact hdb
  · obtain ⟨fields₀, added, hdoc₀, henrolled, hprint₀⟩ := hwhole
    have htext : textOf (configOf base hash) = old := by
      unfold textOf
      rw [hold, Option.bind_some, fromUtf8_encode]
      rfl
    have htable : withStanzas (.table fields₀) added = .table fields :=
      Option.some.inj ((hprinted _ _ hprint₀).symm.trans (htext ▸ hdoc))
    rw [← htable, slugsOf_withStanzas] at hnot
    rw [← htable, withStanzas_withStanzas] at hprint
    have hnot := not_or.mp (fun h => hnot (List.mem_append.mpr h))
    refine ⟨fields₀, added ++ [slug.text], hdoc₀, ⟨?_, ?_, ?_, ?_⟩, hprint⟩
    · exact List.nodup_append.mpr ⟨henrolled.nodup, List.nodup_singleton _, fun a ha b hb heq =>
        hnot.2 (List.mem_singleton.mp hb ▸ heq ▸ ha)⟩
    · intro s hs
      rcases List.mem_append.mp hs with hs | hs
      · exact henrolled.new s hs
      · rw [List.mem_singleton.mp hs]
        exact hnot.1
    · intro s hs
      rcases List.mem_append.mp hs with hs | hs
      · exact henrolled.valid s hs
      · rw [List.mem_singleton.mp hs]
        exact hvalid
    · intro s hs
      rcases List.mem_append.mp hs with hs | hs
      · exact henrolled.hasDb s hs
      · rw [List.mem_singleton.mp hs]
        exact hdb

/-! ### What the commands promise -/

/-- What program `r` promises from a state on, if every file that is there can be read. -/
abbrev Promise (stores : Stores Db) (fromStr : List Char → Option Toml) (toStringPretty : Toml → Option (List Char))
    (hash : String) (purged : String → Prop) (before : Option (List UInt8)) (r : Nat) {A : Type} (p : Run A)
    (Q : A → Base Db → Prop) (base : Base Db) : Prop :=
  Wp (exec stores) (fun o : Outcome => o.readable = true) (Routing fromStr toStringPretty hash purged before)
    (Rely hash purged r) (Guarantee hash purged r) p Q base

variable {before : Option (List UInt8)} {A : Type}

theorem quiet_step {a : Op} (h : a.Quiet hash purged r) (base : Base Db)
    (hbase : Routing fromStr toStringPretty hash purged before base) (o : Outcome) :
    Guarantee hash purged r base (exec stores a o base).1 ∧
      Routing fromStr toStringPretty hash purged before (exec stores a o base).1 :=
  ⟨h.guarantee base o, hbase.step (h.sameFiles base o).1 (h.guarantee base o).hasDb⟩

/-- A program that leaves the routing file alone. -/
theorem promise_quiet {p : Run A} (hp : p.All (Op.Quiet hash purged r)) (base : Base Db) :
    Promise stores fromStr toStringPretty hash purged before r p (fun _ _ => True) base :=
  wp_of_all hp (fun _ ha s hs o _ => quiet_step ha s hs o) base

/-- An operation that leaves the routing file alone, and the rest. -/
theorem promise_bind_quiet {a : Op} (ha : a.Quiet hash purged r) {k : Answer → Run A} {Q : A → Base Db → Prop}
    (hk : ∀ t o u, Rely hash purged r base t → Routing fromStr toStringPretty hash purged before t →
      o.readable = true → Rely hash purged r (exec stores a o t).1 u →
        Promise stores fromStr toStringPretty hash purged before r (k (exec stores a o t).2) Q u) :
    Promise stores fromStr toStringPretty hash purged before r (perform a >>= k) Q base := by
  refine wp_bind rely_refl (wp_perform fun t ht hI o ho => ?_)
  obtain ⟨hg, hI'⟩ := quiet_step ha t hI o
  exact ⟨hg, hI', fun u hu _ => hk t o u ht hI ho hu⟩

theorem answer_eq_some {b : Bool} {x : List UInt8} (h : answer b = some x) : b = true := by
  unfold answer at h
  split_ifs at h with hb
  exact hb

theorem temp_createTemp {o : Outcome} {x : List UInt8} (h : (exec stores (.createTemp hash r) o base).2 = some x) :
    (tempOf (exec stores (.createTemp hash r) o base).1 hash r).isSome = true := by
  simp only [exec] at h ⊢
  split_ifs at h ⊢
  obtain ⟨dir, hdir⟩ := Option.isSome_iff_exists.mp (answer_eq_some h)
  simp [tempOf, onDir, hdir, Dir.setTemp]

theorem temp_writeTemp {o : Outcome} {x bytes : List UInt8} (htemp : (tempOf base hash r).isSome = true)
    (h : (exec stores (.writeTemp hash r bytes) o base).2 = some x) :
    tempOf (exec stores (.writeTemp hash r bytes) o base).1 hash r = some bytes := by
  obtain ⟨old, hold⟩ := Option.isSome_iff_exists.mp htemp
  obtain ⟨dir, hdir, hdirtemp⟩ := Option.bind_eq_some_iff.mp hold
  have hok := answer_eq_some h
  simp [exec, tempOf, onDir, hdir, Dir.setTemp, hdirtemp, hok]

/-- **The rename installs the whole file**, or nothing. -/
theorem rename_step {text : List Char} (htemp : tempOf base hash r = some (Utf8.encode text))
    (hwhole : Whole fromStr toStringPretty purged before base text)
    (hbase : Routing fromStr toStringPretty hash purged before base) (o : Outcome) :
    Guarantee hash purged r base (exec stores (.rename hash r) o base).1 ∧
      Routing fromStr toStringPretty hash purged before (exec stores (.rename hash r) o base).1 := by
  have hdb (name : String) (hname : ¬ purged name) (h : HasDb base name) :
      HasDb (exec stores (.rename hash r) o base).1 name := hasDb_exec (fun _ heq => by cases heq) base o name hname h
  obtain ⟨dir, hdir, hdirtemp⟩ := Option.bind_eq_some_iff.mp htemp
  cases hok : o.ok with
  | false =>
    have hsame : (exec stores (.rename hash r) o base).1 = base := by simp [exec, hok]
    rw [hsame]
    exact ⟨⟨fun _ _ h => h, fun _ _ => rfl⟩, hbase⟩
  | true =>
    refine ⟨⟨hdb, fun pid hne => ?_⟩, .inr ⟨text, ?_, hwhole.mono hdb⟩⟩
    · simp [exec, hok, tempOf, onDir, hdir, Dir.setTemp, hdirtemp, Function.update_of_ne hne]
    · simp [exec, hok, htemp, configOf, onDir, hdir, Dir.setTemp]

theorem promise_giveUp (e : StanzaError) (base : Base Db) :
    Promise stores fromStr toStringPretty hash purged before r (giveUp hash r e) (fun _ _ => True) base := by
  have hquiet : (Op.removeTemp hash r).Quiet hash purged r := rfl
  exact promise_quiet (all_giveUp hquiet e) base

theorem promise_atomicWrite {text : List Char} (hwhole : Whole fromStr toStringPretty purged before base text) :
    Promise stores fromStr toStringPretty hash purged before r (atomicWrite hash r (Utf8.encode text)) (fun _ _ => True)
      base := by
  have hcreateQuiet : (Op.createTemp hash r).Quiet hash purged r := rfl
  have hwriteQuiet : (Op.writeTemp hash r (Utf8.encode text)).Quiet hash purged r := rfl
  refine promise_bind_quiet hcreateQuiet fun t₁ o₁ u₁ ht₁ _ _ hu₁ => ?_
  have hwhole := ((hwhole.mono ht₁.hasDb).mono (hcreateQuiet.guarantee t₁ o₁).hasDb).mono hu₁.hasDb
  cases hcreate : (exec stores (.createTemp hash r) o₁ t₁).2 with
  | none => exact promise_giveUp _ _
  | some _ =>
    have htemp : (tempOf u₁ hash r).isSome = true := hu₁.temp.symm ▸ temp_createTemp hcreate
    refine promise_bind_quiet hwriteQuiet fun t₂ o₂ u₂ ht₂ _ _ hu₂ => ?_
    have hwhole := ((hwhole.mono ht₂.hasDb).mono (hwriteQuiet.guarantee t₂ o₂).hasDb).mono hu₂.hasDb
    cases hwrite : (exec stores (.writeTemp hash r (Utf8.encode text)) o₂ t₂).2 with
    | none => exact promise_giveUp _ _
    | some _ =>
      have htemp : tempOf u₂ hash r = some (Utf8.encode text) :=
        hu₂.temp.trans (temp_writeTemp (ht₂.temp.symm ▸ htemp) hwrite)
      refine wp_bind rely_refl (wp_perform fun t₃ ht₃ hI₃ o₃ _ => ?_)
      obtain ⟨hg, hI⟩ := rename_step (ht₃.temp.trans htemp) (hwhole.mono ht₃.hasDb) hI₃ o₃
      refine ⟨hg, hI, fun u₃ _ _ => ?_⟩
      cases (exec stores (.rename hash r) o₃ t₃).2 with
      | none => exact promise_giveUp _ _
      | some _ => exact wp_pure fun _ _ _ => trivial

theorem promise_ensureProjectStanza (hprinted : Printed fromStr toStringPretty) {slug : ProjectSlug}
    (hslug : isReservedSlug slug = false) (hdb : ¬ purged slug.text → HasDb base slug.text) :
    Promise stores fromStr toStringPretty hash purged before r (ensureProjectStanza fromStr toStringPretty hash r slug)
      (fun _ _ => True) base := by
  have hquiet : (Op.readConfig hash).Quiet hash purged r := trivial
  refine promise_bind_quiet hquiet fun t o u ht hI ho hu => ?_
  have hread : (exec stores (.readConfig hash) o t).2 = configOf t hash := if_pos ho
  rw [hread]
  split
  · exact wp_pure fun _ _ _ => trivial
  · exact wp_pure fun _ _ _ => trivial
  · rename_i text hnew
    have hwhole := whole_newText hprinted hI hslug (fun hnot => ht.hasDb _ hnot (hdb hnot)) hnew
    exact promise_atomicWrite (hwhole.mono hu.hasDb)

theorem hasDb_openStore {o : Outcome} {name : String} {x : List UInt8}
    (h : (exec stores (.openStore name) o base).2 = some x) : HasDb (exec stores (.openStore name) o base).1 name := by
  obtain ⟨hok, hdir⟩ := Bool.and_eq_true_iff.mp (answer_eq_some h)
  obtain ⟨dir, hdir⟩ := Option.isSome_iff_exists.mp hdir
  simp [HasDb, dbOf, exec, onDir, hdir, stores.opened_ok dir.db o hok]

/-- What `register` promises of the store. -/
def Served (purged : String → Prop) (name : String) (x : Except ProjectError Unit) (base : Base Db) : Prop :=
  x = .ok () → ¬ purged name → HasDb base name

theorem promise_openAndEnroll (hprinted : Printed fromStr toStringPretty) {slug : ProjectSlug}
    (hslug : isReservedSlug slug = false) (hhash : slug.text ≠ hash) (e : ProjectError) :
    Promise stores fromStr toStringPretty hash purged before r
      (openAndEnroll fromStr toStringPretty seed hash r slug e) (Served purged slug.text) base := by
  have hopenQuiet : (Op.openStore slug.text).Quiet hash purged r := trivial
  have hseedQuiet : (Op.writeIfAbsent slug.text seed).Quiet hash purged r := hhash
  refine promise_bind_quiet hopenQuiet fun t o u _ _ _ hu => ?_
  cases hopen : (exec stores (.openStore slug.text) o t).2 with
  | none => exact wp_pure fun _ _ _ => nofun
  | some _ =>
    have hdb (hnot : ¬ purged slug.text) : HasDb u slug.text := hu.hasDb _ hnot (hasDb_openStore hopen)
    have henroll : Promise stores fromStr toStringPretty hash purged before r
        (enroll fromStr toStringPretty seed hash r slug) (fun _ _ => True) u := by
      refine wp_bind rely_refl ((promise_ensureProjectStanza hprinted hslug hdb).mono fun x v _ _ => ?_)
      cases x with
      | error _ => exact wp_pure fun _ _ _ => trivial
      | ok _ => exact promise_quiet (all_bind (all_perform hseedQuiet) fun _ => all_pure _) v
    have hframed := henroll.frame (fun _ _ h hdb hnot => h.hasDb _ hnot (hdb hnot))
      (fun _ _ h hdb hnot => h.hasDb _ hnot (hdb hnot)) hdb
    exact hframed.mono fun _ _ _ h _ => h.2

theorem promise_register (hprinted : Printed fromStr toStringPretty) {raw : String} (hhash : raw ≠ hash) :
    Promise stores fromStr toStringPretty hash purged before r
      (register fromStr toStringPretty probe seed hash r raw) (Served purged raw) base := by
  unfold register validateSlug
  cases hslug : ProjectSlug.tryFrom raw with
  | none => exact wp_pure fun _ _ _ => nofun
  | some slug =>
    obtain rfl : slug.text = raw := by
      unfold ProjectSlug.tryFrom at hslug
      split_ifs at hslug
      exact congrArg ProjectSlug.text (Option.some.inj hslug).symm
    cases hreserved : isReservedSlug slug with
    | true =>
      simp only [hreserved, if_true]
      exact wp_pure fun _ _ _ => nofun
    | false =>
      simp only [hreserved, Bool.false_eq_true, if_false]
      have hexists : (Op.dbExists slug.text).Quiet hash purged r := trivial
      have hread : (Op.readConfig hash).Quiet hash purged r := trivial
      have hcreate : (Op.createDirAll slug.text).Quiet hash purged r := trivial
      have hvector : (Op.createVectorDir slug.text).Quiet hash purged r := trivial
      refine promise_bind_quiet hexists fun _ _ _ _ _ _ _ => ?_
      refine wp_bind rely_refl (promise_bind_quiet hread fun _ _ _ _ _ _ _ => wp_pure fun _ _ _ => ?_)
      split_ifs
      · exact wp_pure fun _ _ _ => nofun
      · exact promise_openAndEnroll hprinted hreserved hhash _
      · refine promise_bind_quiet hcreate fun t o _ _ _ _ _ => ?_
        cases (exec stores (.createDirAll slug.text) o t).2 with
        | none => exact wp_pure fun _ _ _ => nofun
        | some _ =>
          refine promise_bind_quiet hvector fun t o _ _ _ _ _ => ?_
          cases (exec stores (.createVectorDir slug.text) o t).2 with
          | none => exact wp_pure fun _ _ _ => nofun
          | some _ => exact promise_openAndEnroll hprinted hreserved hhash _

/-- What a program promises in the end. -/
def Command.Promised (c : Command) (purged : String → Prop) (x : Except ProjectError Unit) (base : Base Db) : Prop :=
  ∀ raw, c = .register raw → Served purged raw x base

/-- The command is about the daemon's own directory. -/
def Command.Names (c : Command) (name : String) : Prop :=
  c = .register name ∨ ∃ purge confirm, c = .delete name purge confirm

theorem promise_command (hprinted : Printed fromStr toStringPretty) {c : Command} (hhash : ¬ c.Names hash)
    (hpurged : ∀ name, c.Purges name → purged name) : Promise stores fromStr toStringPretty hash purged before r
      (c.run fromStr toStringPretty probe seed hash r) (c.Promised purged) base := by
  have hquiet {p : Run (Except ProjectError Unit)} (hp : p.All (Op.Quiet hash purged r))
      (hc : ∀ raw, c ≠ .register raw) :
      Promise stores fromStr toStringPretty hash purged before r p (c.Promised purged) base :=
    (promise_quiet hp base).mono fun _ _ _ _ raw heq => (hc raw heq).elim
  cases c with
  | register raw =>
    have hraw : raw ≠ hash := fun heq => hhash (.inl (heq ▸ rfl))
    refine (promise_register hprinted hraw).mono fun x base _ hserved raw' heq => ?_
    cases heq
    exact hserved
  | list => exact hquiet (all_listAndPrint trivial fun _ => trivial) nofun
  | delete raw purge confirm =>
    have hraw : raw ≠ hash := fun heq => hhash (.inr ⟨purge, confirm, heq ▸ rfl⟩)
    exact hquiet (all_delete (fun _ => trivial) fun hpurge => ⟨hraw, hpurged raw hpurge⟩) nofun
  | serve names => exact hquiet (all_serveStores (fun _ => trivial) names) nofun

/-- A command purges this directory. -/
def Purged (commands : Nat → Command) (name : String) : Prop := ∃ r, (commands r).Purges name

end Routing

/-! ## One slug beside another -/

/-- Stores that are logs. -/
def logs : Stores (List Nat) where
  opened d o := if o.ok then some (d.getD []) else d
  written d o := d ++ [o.part]
  Keeps d d' := d <+: d'
  refl := List.prefix_refl
  trans h h' := h.trans h'
  opened_keeps d o := by
    refine ⟨d, ?_, List.prefix_refl d⟩
    split_ifs <;> rfl
  opened_ok d o h := by
    rw [if_pos h]
    rfl
  written_keeps d o := List.prefix_append d _

/-- The document with a stanza for "b". -/
def printB : Toml → Option (List Char)
  | .table [("projects", .array [.table [("slug", .string "b")]])] => some "[[projects]]\nslug = \"b\"\n".toList
  | _ => none

/-- The document in what is printed for "b". -/
def parseB (text : List Char) : Option Toml :=
  if text = "[[projects]]\nslug = \"b\"\n".toList then some (withStanzas (.table []) ["b"]) else none

theorem printed_b : Printed parseB printB := by
  intro doc text h
  unfold printB at h
  split at h
  · cases h
    rfl
  · cases h

/-- The slug "b" is registered while a server writes to the store of "a". -/
def bBesideA : Nat → Command
  | 0 => .register "b"
  | 1 => .serve ["a", "a"]
  | _ => .list

/-- A daemon without a `config.toml`, and the store of "a". -/
def aAlone : World (Base (List Nat)) Op Answer (Except ProjectError Unit) where
  shared name := if name = "a" then some ⟨some [7], true, none, fun _ => none⟩
    else if name = "0123456789abcdef" then some emptyDir else none
  procs r := (bBesideA r).run parseB printB (fun _ => none) [] "0123456789abcdef" r

/-- All goes well. -/
def wellDone : List (Nat × Outcome) := (1, ⟨true, true, 8⟩) :: List.replicate 10 (0, ⟨true, true, 0⟩)

end Unimatrix.Projects
