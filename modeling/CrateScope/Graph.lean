import CrateScope.Edition
import CrateScope.ItemTree
import CrateScope.Report

/-!
# Crate graphs

All crates of a build, in the order in which they are declared, each with its item tree and the
names of the crates that it depends on directly.

## Main definitions

* `CrateSource` — one crate as declared.
* `CrateGraph`, `CrateGraph.add` — crates of distinct names.
* `GraphError` — what can be wrong with the description of a graph or with the graph.
* `CrateGraph.dependencies` — the direct dependencies of a crate, by number.
-/

namespace CrateScope

/-- A crate as declared. -/
structure CrateSource where
  name : String
  /-- The edition, where it is not the one set for the whole build. -/
  edition : Option Edition := none
  root : ModuleBody := {}
  /-- The names of the crates that this one depends on directly. -/
  dependencies : List String := []

/-- The name under which other crates refer to a crate: a dash cannot occur in a name, so that
`my-crate` is `my_crate` there. -/
def normalizeCrateName (name : String) : Name :=
  name.map fun c => if c = '-' then '_' else c

/-- What can be wrong with the description of a graph, or with the graph. -/
inductive GraphError where
  /-- The file with the description cannot be read. -/
  | unreadable (file : String)
  /-- The description is not one of a graph. -/
  | malformed
  /-- A crate depends on a crate that is not declared. -/
  | unknownDependency (crate dependency : String)
  /-- Two crates have the same name. -/
  | duplicateCrate (name : String)
  /-- A crate depends on itself, directly or through others. -/
  | dependencyCycle (name : String)
  /-- A text is not that of a visibility. -/
  | invalidVisibility (text : String)
  deriving DecidableEq, Repr

/-- What a graph error tells the user. -/
def GraphError.report : GraphError → Report
  | unreadable file =>
    { message := "Failed to read crate graph file " ++ file
      code := "defmap_item_tree::io_error" }
  | malformed =>
    { message := "Invalid crate graph description"
      code := "defmap_item_tree::toml_error"
      help := some "Check the `[[crate]]` tables and their `root` item trees" }
  | unknownDependency crate dependency =>
    { message := "Crate `" ++ crate ++ "` depends on unknown crate `" ++ dependency ++ "`"
      code := "defmap_item_tree::unknown_dependency" }
  | duplicateCrate name =>
    { message := "Crate `" ++ name ++ "` is declared more than once"
      code := "defmap_item_tree::duplicate_crate" }
  | dependencyCycle name =>
    { message := "Dependency cycle detected involving crate `" ++ name ++ "`"
      code := "defmap_item_tree::dependency_cycle"
      help := some "Crate dependencies must form a directed acyclic graph" }
  | invalidVisibility text =>
    { message := "Invalid visibility `" ++ text ++ "`"
      code := "defmap_item_tree::invalid_visibility"
      help := some ("Expected one of `pub`, `pub(crate)`, `pub(super)`, `pub(self)`, " ++
        "`pub(in path)` or nothing") }

/-- Reads a visibility, or says which text is none. -/
def WrittenVisibility.parse (text : String) : Except GraphError WrittenVisibility :=
  match parse? text with
  | some visibility => .ok visibility
  | none => .error (.invalidVisibility text)

/-- All crates of a build, in declaration order. -/
structure CrateGraph where
  crates : List CrateSource
  /-- A name identifies a crate. -/
  nodup_names : (crates.map CrateSource.name).Nodup

namespace CrateGraph

/-- The graph without a crate. -/
def empty : CrateGraph := ⟨[], List.nodup_nil⟩

instance : Inhabited CrateGraph := ⟨empty⟩

/-- The number of crates. -/
def size (g : CrateGraph) : Nat := g.crates.length

/-- The numbers of the crates, in declaration order. -/
def ids (g : CrateGraph) : List CrateId := (List.range g.size).map CrateId.mk

/-- A crate by its number. -/
def crate? (g : CrateGraph) (id : CrateId) : Option CrateSource := g.crates[id.index]?

/-- The number of the crate with a name. -/
def idOf? (g : CrateGraph) (name : String) : Option CrateId :=
  (g.crates.findIdx? fun crate => crate.name == name).map CrateId.mk

/-- The name of a crate.  A number outside the graph is shown as such. -/
def nameOf (g : CrateGraph) (id : CrateId) : String :=
  ((g.crate? id).map CrateSource.name).getD id.text

/-- Declares one more crate, which gets the next number. -/
def add (g : CrateGraph) (crate : CrateSource) : Except GraphError CrateGraph :=
  if h : crate.name ∈ g.crates.map CrateSource.name then
    .error (.duplicateCrate crate.name)
  else
    .ok ⟨g.crates ++ [crate], by
      rw [List.map_append, List.map_singleton]
      exact List.nodup_append.2 ⟨g.nodup_names, by simp, fun x hx y hy e => h (by simp_all)⟩⟩

/-- The graph of some crates.  The first name that comes up a second time is refused. -/
def ofCrates (crates : List CrateSource) : Except GraphError CrateGraph :=
  crates.foldlM add empty

/-- The direct dependencies of a crate, in the order in which it lists them.  A crate outside the
graph has none. -/
def dependencies (g : CrateGraph) (id : CrateId) : Except GraphError (List CrateId) :=
  match g.crate? id with
  | none => .ok []
  | some crate => crate.dependencies.mapM fun dependency =>
    match g.idOf? dependency with
    | some id => .ok id
    | none => .error (.unknownDependency crate.name dependency)

end CrateGraph

end CrateScope
