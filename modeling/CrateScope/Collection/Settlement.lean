import CrateScope.Collection.Propagation

/-!
# Carrying imports out

Imports are tried in passes.  One pass tries every import that waits, once, and carries out those
whose path can be resolved; what they bind may let others be resolved, in the same pass or in the
next.  After a pass in which nothing was carried out the rest is hopeless.

## Main definitions

* `Collection.status` — how far the path of an import can be resolved now.
* `Collection.carryOut` — what an import does once its path is resolved.
* `Collection.pass` — one pass over the imports that wait.
* `Collection.settle` — passes until nothing is left to be done.
* `Collection.giveUp` — recording the imports that could not be resolved.
-/

namespace CrateScope

namespace Collection

/-! ### The path of an import -/

/-- The root of the crate that an `extern crate` names: a direct dependency, or the crate itself
when the name is `self`. -/
def externRoot? (c : Collection) (path : Path) : Option ModuleId :=
  path.first?.bind fun name =>
    if name = "self" then some (c.tree.global .root) else c.directCrates.get? name

/-- How far the path of an import can be resolved now. -/
def status (c : Collection) (i : Import) : ImportStatus :=
  match i.kind with
  | .externCrate _ =>
    match c.externRoot? i.path with
    | some root => .resolved (.only .types (c.view.moduleBinding root))
    | none => .unresolved
  | _ =>
    let r := c.view.resolve i.module i.path .inImport
    if r.meaning.isEmpty || !r.settled then .unresolved
    else if r.leavesCrate || r.meaning.isFull then .resolved r.meaning
    else .indeterminate r.meaning

/-- What is told about trying an import. -/
def statusLog (c : Collection) (i : Import) : Log :=
  let trying : LogEntry :=
    ⟨.trace, "resolving import `" ++ i.path.text ++ "` (" ++ i.kind.text ++ ")"⟩
  match i.kind with
  | .externCrate _ => #[trying]
  | _ => #[trying] ++ c.view.resolveLog i.module i.path .inImport

/-! ### What an import does -/

/-- The macros of a crate that every crate may name. -/
def publicMacros (view : View) (root : ModuleId) : List (Name × Binding) :=
  match view.mapOf? root.crate with
  | none => []
  | some map =>
    (map.scope root.index).entries.filterMap fun (name, meaning) =>
      (meaning.publicPart.macros).map (name, ·)

/-- Makes the crate of an `extern crate` at the root known everywhere: its name can start any path,
and with `#[macro_use]` its public macros are in scope in every module.  A macro that is there
already stays. -/
def openCrate (c : Collection) (name : Option Name) (meaning : Meaning) (macroUse : Bool) :
    Collection :=
  match meaning.types.bind fun b => c.view.locate? b.path with
  | none => c
  | some root =>
    let externPrelude :=
      match name with
      | some name => c.map.externPrelude.insert name root
      | none => c.map.externPrelude
    let macros := if macroUse then publicMacros c.view root else []
    let macroPrelude := macros.foldl (fun known (name, b) => known.insertNew name b)
      c.map.macroPrelude
    c.withMap { c.map with externPrelude, macroPrelude }

/-- Tells that an import binds a name. -/
def tellBinding (c : Collection) (i : Import) (name : Name) : Collection :=
  c.tell .trace ("binding `" ++ name ++ "` in module " ++ i.module.text ++ " from `" ++
    i.path.text ++ "`")

/-- Binds the name of an import to what its path means. -/
def bindName (c : Collection) (limit : Nat) (i : Import) (meaning : Meaning) :
    Except Failure Collection :=
  match i.name with
  | none => .ok c
  | some name =>
    (c.tellBinding i name).receive limit i.module
      [(name, meaning.handedOn c.tree i.visibility)] .named

/-- The names of the module `source` that a glob import brings in.  Of another crate these are the
public ones, of the own crate all that the importing module may name. -/
def globNames (c : Collection) (i : Import) (source : ModuleId) : List (Name × Meaning) :=
  match c.view.mapOf? source.crate with
  | none => []
  | some map =>
    let names := (map.scope source.index).entries
    if source.crate = c.view.crate then offered c.tree i.module i.visibility names
    else
      (names.map fun (name, meaning) =>
        (name, meaning.publicPart.handedOn c.tree i.visibility)).filter
          fun entry => !entry.2.isEmpty

/-- Tells how many names a glob import brings in. -/
def tellGlob (c : Collection) (i : Import) (names : List (Name × Meaning)) : Collection :=
  c.tell .trace ("glob-importing " ++ toString names.length ++ " name(s) from `" ++ i.path.text ++
    "`")

/-- Keeps a glob connected to its source if that can still gain names: that is, if it is of the own
crate. -/
def linkGlob (c : Collection) (i : Import) (source : ModuleId) : Collection :=
  if source.crate = c.view.crate then
    c.addEdge source.index { importer := i.module, visibility := i.visibility }
  else c

/-- Brings the names of a module in, and keeps the connection. -/
def openGlob (c : Collection) (limit : Nat) (i : Import) (meaning : Meaning) :
    Except Failure Collection :=
  match meaning.types.filter Binding.isModuleOrEnum with
  | none =>
    .ok (c.tell .debug ("glob import `" ++ i.path.text ++ "::*` does not name a module or enum"))
  | some target =>
    match c.view.locate? target.path with
    | none => .ok c
    | some source => do
      let names := c.globNames i source
      let c ← (c.tellGlob i names).receive limit i.module names (.glob source)
      return c.linkGlob i source

/-- What an import does once its path is resolved. -/
def carryOut (c : Collection) (limit : Nat) (i : Import) (meaning : Meaning) :
    Except Failure Collection :=
  match i.kind with
  | .glob => c.openGlob limit i meaning
  | .named => c.bindName limit i meaning
  | .externCrate macroUse =>
    (if i.module = .root then c.openCrate i.name meaning macroUse else c).bindName limit i meaning

/-- Carries an import out, and keeps a record of it. -/
def settleOne (c : Collection) (limit : Nat) (i : Import) (status : ImportStatus)
    (meaning : Meaning) : Except Failure Collection := do
  let c ← c.carryOut limit i meaning
  return { c with settled := c.settled ++ [⟨i, status⟩] }

/-! ### Passes -/

/-- Tries some imports in turn.  The result has those that could not be resolved. -/
def pass (limit : Nat) (c : Collection) : List Import → Except Failure (Collection × List Import)
  | [] => .ok (c, [])
  | i :: rest =>
    let status := c.status i
    let told := { c with log := c.log ++ c.statusLog i }
    match status.meaning? with
    | none => do
      let (c, left) ← pass limit told rest
      return (c, i :: left)
    | some meaning => do
      let c ← told.settleOne limit i status meaning
      pass limit c rest

/-- What a collection comes to: the state, the number of passes, and the imports that could not be
resolved. -/
structure Outcome where
  collection : Collection
  passes : Nat
  unresolved : List Import

/-- Passes over the imports that wait, until one carries nothing out.  Before each pass, counted
from one, `isCancelled` says whether to stop. -/
def settle (limit : Nat) (isCancelled : Nat → Bool) (number : Nat) (waiting : List Import)
    (c : Collection) : Except Failure Outcome :=
  if isCancelled number then .error ⟨.cancelled, c.log⟩
  else
    match pass limit c waiting with
    | .error failure => .error failure
    | .ok (c, left) =>
      let c := c.tell .debug ("`" ++ c.map.name ++ "` pass " ++ toString number ++ ": resolved " ++
        toString (waiting.length - left.length) ++ " of " ++ toString waiting.length ++
        " pending import(s)")
      if left.length < waiting.length then settle limit isCancelled (number + 1) left c
      else .ok ⟨c, number, left⟩
termination_by waiting.length

/-- Records an import that could not be resolved. -/
def giveUp (c : Collection) (i : Import) : Collection :=
  let module := c.map.displayModule i.module
  (c.tell .debug ("unresolved import `" ++ i.pathText ++ "` in `" ++ module ++ "`")).withMap
    (c.map.diagnose (.unresolvedImport module i.pathText))

/-- Carries out all imports that can be, and records the others. -/
def run (limit : Nat) (isCancelled : Nat → Bool) (imports : List Import) (c : Collection) :
    Except Failure Outcome := do
  let outcome ← settle limit isCancelled 1 imports c
  return { outcome with collection := outcome.unresolved.foldl giveUp outcome.collection }

end Collection

end CrateScope
