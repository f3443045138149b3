import CrateScope.Graph
import CrateScope.Log

/-!
# Why a map is not built

Unlike a diagnostic, a build error means that there is no map.  What was told before the error came
up is kept with it.
-/

namespace CrateScope

/-- Why the map of a crate is not built. -/
inductive BuildError where
  /-- A name was handed on from glob import to glob import more often than the settings allow. -/
  | globRecursionLimit (crate module : String) (limit : Nat)
  /-- The build was asked to stop. -/
  | cancelled
  /-- The map of a dependency is missing. -/
  | dependencyNotBuilt (crate dependency : String)
  /-- The number is that of no crate. -/
  | unknownCrate (crate : CrateId)
  /-- The dependencies in the graph are not in order. -/
  | graph (error : GraphError)
  deriving DecidableEq, Repr

/-- What a build error tells the user. -/
def BuildError.report : BuildError → Report
  | globRecursionLimit crate module limit =>
    { message := "Glob import propagation in crate `" ++ crate ++
        "` exceeded the recursion limit of " ++ toString limit ++ " at `" ++ module ++ "`"
      code := "defmap_nameres::glob_recursion_limit"
      help := some ("Glob imports between modules are expected to settle; " ++
        "this indicates an internal inconsistency") }
  | cancelled =>
    { message := "Name resolution was cancelled"
      code := "defmap_nameres::cancelled" }
  | dependencyNotBuilt crate dependency =>
    { message := "Crate `" ++ crate ++ "` cannot be resolved before its dependency `" ++
        dependency ++ "`"
      code := "defmap_nameres::dependency_not_built"
      help := some "Build definition maps in topological order of the crate graph" }
  | unknownCrate crate =>
    { message := "Unknown crate " ++ crate.text
      code := "defmap_nameres::unknown_crate" }
  | graph error => error.report

/-- A build that came to nothing: why, and what was told until then. -/
structure Failure where
  error : BuildError
  log : Log

end CrateScope
