import CrateScope.BuildError
import CrateScope.Resolution

/-!
# Commands

What the command line asks for, and what can be wrong with it.

## Main definitions

* `Command` — one of the two things that can be asked for.
* `CommandError` — why a command comes to nothing.
* `Stop` — why a command line is not that of a command.
-/

namespace CrateScope

/-- What is asked for.  Each command names the file with the description of the graph, and may set
the edition of the crates that declare none. -/
inductive Command where
  /-- Shows the map of one crate, or of all. -/
  | dump (file : String) (crate : Option String) (edition : Option Edition)
  /-- Shows what a path means in a module of a crate. -/
  | resolve (file crate module path : String) (use : PathUse) (edition : Option Edition)
  deriving DecidableEq, Repr

/-- Why a command line is not that of a command. -/
inductive Stop where
  /-- It asks for help. -/
  | help
  /-- It is not well formed. -/
  | usage
  deriving DecidableEq, Repr

/-- Why a command comes to nothing. -/
inductive CommandError where
  /-- The graph cannot be read or is no graph. -/
  | graph (error : GraphError)
  /-- The maps of the graph cannot be built. -/
  | build (error : BuildError)
  /-- There is no crate of that name. -/
  | unknownCrate (name : String) (known : List String)
  /-- The crate has no such module. -/
  | unknownModule (crate module : String)
  /-- The text is not a path. -/
  | invalidPath (text : String)
  deriving DecidableEq, Repr

/-- What a command error tells the user. -/
def CommandError.report : CommandError → Report
  | graph error => error.report
  | build error => error.report
  | unknownCrate name known =>
    { message := "No crate named `" ++ name ++ "` in the graph"
      code := "defmap::cli::unknown_crate"
      help := some ("Known crates: " ++ ", ".intercalate known) }
  | unknownModule crate module =>
    { message := "No module `" ++ module ++ "` in crate `" ++ crate ++ "`"
      code := "defmap::cli::unknown_module"
      help := some "Module paths are written from the crate root, e.g. `a::b`" }
  | invalidPath text =>
    { message := "Cannot parse path `" ++ text ++ "`"
      code := "defmap::cli::invalid_path" }

end CrateScope
