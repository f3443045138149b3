import CrateScope.Collection.Settlement
import CrateScope.Graph.Order
import CrateScope.Settings

/-!
# Building the map of a crate

The map of a crate is built from its item tree and the finished maps of everything that the crate
depends on.  First comes the outline, then the imports are collected.

## Main definitions

* `Built` — a finished view, with what was told and with the imports it came from.
* `dependencyMaps` — the finished maps that a crate needs.
* `findPrelude` — the prelude module that the settings name.
* `openBuild`, `closeBuild` — what comes before the imports are collected, and what comes after.
* `buildView` — all of it.
-/

namespace CrateScope

/-- A finished view, and how it came about. -/
structure Built where
  view : View
  log : Log
  /-- The imports that were carried out, in the order in which they were. -/
  settled : List SettledImport
  /-- The imports that name nothing. -/
  unresolved : List Import

/-- The map of every crate that `id` depends on, directly or through others. -/
def dependencyMaps (g : CrateGraph) (id : CrateId) (name : String)
    (finished : CrateId → Option CrateMap) : Except BuildError (Listing CrateId CrateMap) := do
  let dependencies ← (g.transitiveDependencies id).mapError .graph
  dependencies.foldlM (fun maps dependency =>
    match finished dependency with
    | some map => .ok (maps.insert dependency map)
    | none => .error (.dependencyNotBuilt name (g.nameOf dependency))) ∅

/-- The names of the direct dependencies of a crate, as its paths write them. -/
def directNames (g : CrateGraph) (id : CrateId) : Except BuildError (Listing Name ModuleId) := do
  let dependencies ← (g.dependencies id).mapError .graph
  return dependencies.foldl (fun names dependency =>
    match g.crate? dependency with
    | some crate => names.insert (normalizeCrateName crate.name) dependency.root
    | none => names) ∅

/-- The prelude module of a crate.  The text of the settings is a path whose first name is that of
a crate; a crate that cannot name this one has no prelude. -/
def findPrelude (view : View) (text : String) : Option ModuleId × Log :=
  match Path.parse? text with
  | none => (none, #[])
  | some path =>
    if path.anchor ≠ .plain ∧ path.anchor ≠ .absolute then
      (none, #[⟨.warn, "prelude path `" ++ text ++ "` must start with a crate name"⟩])
    else
      match path.segments with
      | [] => (none, #[])
      | first :: rest =>
        match view.own.externPrelude.get? first with
        | none => (none, #[])
        | some root =>
          match view.locate? ⟨root.crate, rest⟩ with
          | some prelude => (some prelude, #[])
          | none =>
            let message := "prelude module `" ++ text ++ "` not found in `" ++ view.own.name ++ "`"
            (none, #[⟨.warn, message⟩])

/-- The outline of a crate together with its prelude, ready for its imports to be collected. -/
def prepare (crate : CrateSource) (id : CrateId) (edition : Edition)
    (names : Listing Name ModuleId) (maps : Listing CrateId CrateMap) (settings : Settings) :
    Collection × List Import :=
  let o := Outline.ofBody (.initial id crate.name edition names) crate.root
  let c := Collection.ofOutline o maps
  match settings.prelude with
  | none => (c, o.imports)
  | some text =>
    let (prelude, told) := findPrelude c.view text
    ({ c.withMap { c.map with prelude } with log := c.log ++ told }, o.imports)

/-- The state in which the imports of a crate begin to be carried out, and these imports.
`finished` has the maps of the crates that were built before. -/
def openBuild (g : CrateGraph) (id : CrateId) (crate : CrateSource)
    (finished : CrateId → Option CrateMap) (settings : Settings) :
    Except Failure (Collection × List Import) := do
  let maps ← (dependencyMaps g id crate.name finished).mapError (⟨·, #[]⟩)
  let edition := crate.edition.getD settings.edition
  let opening : LogEntry :=
    ⟨.info, "resolving `" ++ crate.name ++ "` (" ++ edition.text ++ " edition, " ++
      toString maps.size ++ " dependencies)"⟩
  let names ← (directNames g id).mapError (⟨·, #[opening]⟩)
  let (c, imports) := prepare crate id edition names maps settings
  return ({ c with log := #[opening] ++ c.log }, imports)

/-- The finished view of a crate whose imports were collected. -/
def closeBuild (crate : CrateSource) (outcome : Collection.Outcome) : Built :=
  let c := outcome.collection.tell .debug ("`" ++ crate.name ++ "` settled after " ++
    toString outcome.passes ++ " pass(es) with " ++
    toString outcome.collection.settled.length ++ " resolved and " ++
    toString outcome.unresolved.length ++ " unresolved import(s)")
  let problems := c.map.diagnostics.length
  let c := if problems = 0 then c
    else c.tell .info ("`" ++ crate.name ++ "`: " ++ toString problems ++ " diagnostic(s)")
  { view := c.view
    log := c.log
    settled := c.settled
    unresolved := outcome.unresolved }

/-- Builds the map of a crate.  The build asks before it starts (at `0`) and before each pass over
the imports whether to stop. -/
def buildView (g : CrateGraph) (id : CrateId) (finished : CrateId → Option CrateMap)
    (settings : Settings) (isCancelled : Nat → Bool) : Except Failure Built :=
  match g.crate? id with
  | none => .error ⟨.unknownCrate id, #[]⟩
  | some crate =>
    if isCancelled 0 then .error ⟨.cancelled, #[]⟩
    else do
      let (c, imports) ← openBuild g id crate finished settings
      let outcome ← Collection.run settings.globLimit isCancelled imports c
      return closeBuild crate outcome

end CrateScope
