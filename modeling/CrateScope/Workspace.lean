import CrateScope.Build

/-!
# Workspaces

A workspace has a crate graph, the settings, and the maps that were built so far.  A map is built at
most once, after the maps of everything its crate depends on.  Whether a build should stop is asked
from a stop signal, which may change between two questions.

## Main definitions

* `Workspace` — the graph with its finished maps.
* `Workspace.build` — building one crate.
* `Workspace.buildAll` — building all crates in an order that their dependencies allow.

Each of these returns the workspace as it is afterwards, what was told, and the error if there was
one.
-/

namespace CrateScope

/-- A crate graph with the maps that were built so far. -/
structure Workspace where
  graph : CrateGraph
  settings : Settings := {}
  /-- The finished maps. -/
  views : Listing CrateId View := ∅

namespace Workspace

/-- The finished view of a crate. -/
def view? (w : Workspace) (crate : CrateId) : Option View := w.views.get? crate

/-- The finished view of the crate with a name. -/
def viewOfName? (w : Workspace) (name : String) : Option View :=
  (w.graph.idOf? name).bind w.view?

/-- The finished map of a crate. -/
def map? (w : Workspace) (crate : CrateId) : Option CrateMap := (w.view? crate).map View.own

/-- What an operation on a workspace comes to. -/
structure Outcome (α : Type) where
  workspace : Workspace
  log : Log
  result : Except BuildError α

/-- Builds the map of a crate, unless there is one already.  The maps of its dependencies must have
been built before. -/
def build (w : Workspace) (isCancelled : Nat → Bool) (crate : CrateId) : Outcome View :=
  match w.view? crate with
  | some view => { workspace := w, log := #[], result := .ok view }
  | none =>
    match buildView w.graph crate w.map? w.settings isCancelled with
    | .ok built =>
      { workspace := { w with views := w.views.insert crate built.view }
        log := built.log
        result := .ok built.view }
    | .error failure => { workspace := w, log := failure.log, result := .error failure.error }

/-- Builds some crates in turn.  The first that fails ends it. -/
def buildEach (isCancelled : CrateId → Nat → Bool) (w : Workspace) :
    List CrateId → Outcome Unit
  | [] => { workspace := w, log := #[], result := .ok () }
  | crate :: rest =>
    let first := w.build (isCancelled crate) crate
    match first.result with
    | .error e => { workspace := first.workspace, log := first.log, result := .error e }
    | .ok _ =>
      let others := buildEach isCancelled first.workspace rest
      { others with log := first.log ++ others.log }

/-- Builds all crates of the graph, each after those it depends on. -/
def buildAll (w : Workspace) (isCancelled : CrateId → Nat → Bool) : Outcome Unit :=
  match w.graph.topologicalOrder with
  | .error e => { workspace := w, log := #[], result := .error (.graph e) }
  | .ok order => w.buildEach isCancelled order

end Workspace

end CrateScope
