import CrateScope.BuildError
import CrateScope.Collection.GlobSources
import CrateScope.Outline

/-!
# Collecting imports into a map

The state in which the imports of a crate are carried out, and the smallest step of it: one binding
comes into one slot.

Beside the map the state knows which slots are bound by a glob import, and by one of which module.
That decides who gives way: a named import takes a slot over from a glob, nothing takes a slot over
from a declaration or a named import, and of two globs the first keeps the slot.

## Main definitions

* `Collection` — the state.
* `Origin` — whether a binding comes from a named import or through a glob.
* `Verdict`, `judgeBinding` — what happens to a slot that a binding comes to.
* `Collection.place` — one binding comes to one slot.
* `Collection.merge`, `Collection.mergeAll` — the same for a name, and for many names.
-/

namespace CrateScope

/-- A glob import as a standing connection: what its source gains later is handed on. -/
structure GlobEdge where
  /-- The module in which the import stands. -/
  importer : LocalId
  /-- The visibility of the import. -/
  visibility : Visibility
  deriving DecidableEq, Repr

/-- The state in which the imports of a crate are carried out. -/
structure Collection where
  view : View
  /-- For each module the globs that read from it, the oldest first. -/
  globEdges : Listing LocalId (List GlobEdge) := ∅
  /-- The slots that are bound by a glob, each with the module that the glob reads from. -/
  globSources : GlobSources := ∅
  /-- The crates that `extern crate` can name.  Other than the names that can start a path, these
  do not grow. -/
  directCrates : Listing Name ModuleId := ∅
  /-- The imports that were carried out, in the order in which they were. -/
  settled : List SettledImport := []
  log : Log := #[]

/-- Where a binding comes from. -/
inductive Origin where
  /-- A `use` of a name, or an `extern crate`. -/
  | named
  /-- A glob that reads from this module. -/
  | glob (source : ModuleId)
  deriving DecidableEq, Repr

/-- What happens to a slot that a binding comes to. -/
inductive Verdict where
  /-- The slot gets the binding. -/
  | replace
  /-- The slot stays as it is. -/
  | keep
  /-- The slot stays as it is, and the user is told. -/
  | clash
  deriving DecidableEq, Repr

/-- What happens when the binding `new` comes from `origin` to a slot that is bound to `existing`,
by a glob of `source` if there is one.  Of the bindings from globs, only another one from the same
module counts: it is news from there. -/
def judgeBinding (existing : Option Binding) (source : Option ModuleId) (origin : Origin)
    (new : Binding) : Verdict :=
  match existing, source, origin with
  | none, _, _ => .replace
  | some old, some _, .named => if old = new then .keep else .replace
  | some old, some current, .glob incoming =>
    if current = incoming ∧ old ≠ new then .replace else .keep
  | some _, none, .glob _ => .keep
  | some old, none, .named => if old.sameItem new then .keep else .clash

namespace Collection

/-- The state before any import: the map is that of the outline. -/
def ofOutline (o : Outline) (dependencies : Listing CrateId CrateMap) : Collection where
  view := { own := o.map, dependencies }
  directCrates := o.map.externPrelude
  log := o.log

/-- The map so far. -/
def map (c : Collection) : CrateMap := c.view.own

/-- The module tree of the crate. -/
def tree (c : Collection) : ModuleTree := c.view.tree

/-- The state with another map. -/
def withMap (c : Collection) (map : CrateMap) : Collection :=
  { c with view := { c.view with own := map } }

/-- Tells something. -/
def tell (c : Collection) (level : Level) (text : String) : Collection :=
  { c with log := c.log.push ⟨level, text⟩ }

/-- The globs that read from a module. -/
def edgesFrom (c : Collection) (m : LocalId) : List GlobEdge := (c.globEdges.get? m).getD []

/-- Makes a glob a standing connection, unless there is the same one already. -/
def addEdge (c : Collection) (source : LocalId) (edge : GlobEdge) : Collection :=
  if edge ∈ c.edgesFrom source then c
  else { c with globEdges := c.globEdges.insert source (c.edgesFrom source ++ [edge]) }

/-! ### One binding -/

/-- Records that a named import would bind a slot to another item, once. -/
def reportClash (c : Collection) (slot : Slot) (existing new : Binding) : Collection :=
  let diagnostic : Diagnostic :=
    .ambiguousImport (c.map.displayModule slot.module) slot.name slot.space
      (c.view.displayPath existing.path) (c.view.displayPath new.path)
  let c := c.tell .debug diagnostic.report.message
  if diagnostic ∈ c.map.diagnostics then c else c.withMap (c.map.diagnose diagnostic)

/-- The record of which slots are bound by globs, after a binding from `origin` came to a slot.  A
named import leaves no slot to a glob, even when both bind it to the same item. -/
def markAfter (sources : GlobSources) (slot : Slot) (origin : Origin) (verdict : Verdict) :
    GlobSources :=
  match origin with
  | .named => sources.erase slot
  | .glob source => if verdict = .replace then sources.insert slot source else sources

/-- The binding `new` comes from `origin` to a slot.  The result says whether the slot changed. -/
def place (c : Collection) (slot : Slot) (new : Binding) (origin : Origin) : Collection × Bool :=
  let existing := c.map.binding? slot
  let verdict := judgeBinding existing (c.globSources.get? slot) origin new
  let c := { c with globSources := markAfter c.globSources slot origin verdict }
  match verdict, existing with
  | .replace, _ => (c.withMap (c.map.bind slot new), true)
  | .clash, some old => (c.reportClash slot old new, false)
  | _, _ => (c, false)

/-! ### Many bindings -/

/-- A meaning comes to a name.  The result has what changed in the name. -/
def merge (c : Collection) (m : LocalId) (name : Name) (meaning : Meaning) (origin : Origin) :
    Collection × Meaning :=
  meaning.toList.foldl (fun (c, changed) (space, new) =>
    let (c, isNew) := c.place ⟨m, name, space⟩ new origin
    (c, if isNew then changed.set space (some new) else changed)) (c, ∅)

/-- Meanings come to some names of a module.  The result has the names that changed, each with what
changed in it. -/
def mergeAll (c : Collection) (m : LocalId) (news : List (Name × Meaning)) (origin : Origin) :
    Collection × List (Name × Meaning) :=
  news.foldl (fun (c, changed) (name, meaning) =>
    let (c, delta) := c.merge m name meaning origin
    (c, if delta.isEmpty then changed else changed ++ [(name, delta)])) (c, [])

end Collection

end CrateScope
