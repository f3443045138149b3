import CrateScope.Diagnostic
import CrateScope.Text.Blank
import CrateScope.Edition

/-!
# Crate maps

The map of a crate holds its module tree and, for each module, what the names in it mean.  A map is
filled with the declarations first and then with the imports; finished maps never change.

What is asked of a map also needs the maps of the crates it depends on, since a name can be bound
to an item of any of them.  A map together with those is a `View`.

## Main definitions

* `CrateMap` — the map of a crate.
* `CrateMap.initial` — the map of a crate of which nothing is known but its dependencies.
* `CrateMap.scope`, `CrateMap.meaning`, `CrateMap.binding?` — reading what is bound.
* `CrateMap.bind` — binding one namespace of one name of one module.
* `View` — a map and the finished maps of everything its crate depends on.
* `View.locate?`, `View.displayPath` — the module at a path, and the text that shows a path.
-/

namespace CrateScope

/-- The map of a crate. -/
structure CrateMap where
  /-- The name of the crate. -/
  name : String
  edition : Edition
  tree : ModuleTree
  /-- The scopes of the modules, by module number. -/
  scopes : Array Scope
  /-- The crates whose names can start any path. -/
  externPrelude : Listing Name ModuleId := ∅
  /-- The macros that are in scope in every module. -/
  macroPrelude : Listing Name Binding := ∅
  /-- The module whose public names are in scope in every module. -/
  prelude : Option ModuleId := none
  diagnostics : List Diagnostic := []
  deriving DecidableEq

namespace CrateMap

/-- The map with nothing but a root, in which the crates of `externPrelude` can be named. -/
def initial (crate : CrateId) (name : String) (edition : Edition)
    (externPrelude : Listing Name ModuleId) : CrateMap where
  name := name
  edition := edition
  tree := .singleton crate
  scopes := #[∅]
  externPrelude := externPrelude

/-- The crate of a map. -/
def crate (map : CrateMap) : CrateId := map.tree.crate

/-- The names of a module. -/
def scope (map : CrateMap) (m : LocalId) : Scope := map.scopes.getD m.index ∅

/-- What a name of a module means. -/
def meaning (map : CrateMap) (m : LocalId) (name : Name) : Meaning :=
  Scope.meaning (map.scope m) name

/-- What a slot is bound to. -/
def binding? (map : CrateMap) (slot : Slot) : Option Binding :=
  (map.meaning slot.module slot.name).get slot.space

/-- Binds a slot, whatever it was bound to before. -/
def bind (map : CrateMap) (slot : Slot) (b : Binding) : CrateMap :=
  { map with
    scopes := map.scopes.modify slot.module.index fun scope =>
      scope.insert slot.name ((Scope.meaning scope slot.name).set slot.space (some b)) }

/-- Adds a module without names inside `parent`, unless there is one of that name. -/
def addChild? (map : CrateMap) (parent : LocalId) (name : Name) (kind : ModuleKind) :
    Option (CrateMap × LocalId) :=
  (map.tree.addChild? parent name kind).map fun (tree, child) =>
    ({ map with tree, scopes := map.scopes.push ∅ }, child)

/-- Records a diagnostic. -/
def diagnose (map : CrateMap) (diagnostic : Diagnostic) : CrateMap :=
  { map with diagnostics := map.diagnostics ++ [diagnostic] }

/-- The binding by which a module is known when it is not named by a path. -/
def moduleBinding (map : CrateMap) (m : LocalId) (visibility : Visibility) : Binding :=
  { path := map.tree.pathOf m, visibility, isModuleOrEnum := true }

/-- The text that shows a module in messages about its own crate. -/
def displayModule (map : CrateMap) (m : LocalId) : String :=
  (map.tree.pathOf m).textFrom "crate"

end CrateMap

/-! ### Maps and the maps they refer to -/

/-- The map of a crate together with the finished maps of all crates it depends on, directly or
through others. -/
structure View where
  own : CrateMap
  dependencies : Listing CrateId CrateMap := ∅
  deriving DecidableEq

namespace View

/-- The crate of a view. -/
def crate (view : View) : CrateId := view.own.crate

/-- The module tree of the crate. -/
def tree (view : View) : ModuleTree := view.own.tree

/-- The map of a crate that the view shows. -/
def mapOf? (view : View) (crate : CrateId) : Option CrateMap :=
  if crate = view.crate then some view.own else view.dependencies.get? crate

/-- The module (or enum) at a path, in whichever crate owns it. -/
def locate? (view : View) (path : ItemPath) : Option ModuleId := do
  let map ← view.mapOf? path.crate
  let m ← map.tree.descend? .root path.segments
  return ⟨path.crate, m⟩

/-- The module of the crate itself at a path. -/
def locateOwn? (view : View) (path : ItemPath) : Option LocalId :=
  if path.crate = view.crate then view.tree.descend? .root path.segments else none

/-- The module of the crate itself that a text names from the root.  Empty parts do not count, nor
does the word `crate`. -/
def moduleOfText? (view : View) (text : String) : Option LocalId :=
  let parts := (splitColons text.toList).map fun part => String.ofList (trim part)
  view.tree.descend? .root (parts.filter fun part => part != "" && part != "crate")

/-- What a name means in a module of any crate. -/
def meaning (view : View) (m : ModuleId) (name : Name) : Meaning :=
  match view.mapOf? m.crate with
  | some map => map.meaning m.index name
  | none => ∅

/-- The binding by which a module of any crate is known when it is not named by a path. -/
def moduleBinding (view : View) (m : ModuleId) : Binding :=
  match view.mapOf? m.crate with
  | some map => map.moduleBinding m.index .everywhere
  | none => { path := ⟨m.crate, []⟩, visibility := .everywhere, isModuleOrEnum := true }

/-- The text that shows a path: it starts with the name of the crate, or with `crate` when that is
the crate of the view. -/
def displayPath (view : View) (path : ItemPath) : String :=
  if path.crate = view.crate then path.textFrom "crate"
  else path.textFrom (((view.mapOf? path.crate).map CrateMap.name).getD "<unknown>")

end View

end CrateScope
