import CrateScope.Binding
import CrateScope.Report

/-!
# Diagnostics

What is wrong with a crate without keeping its map from being built.  A diagnostic is recorded on
the map, and nothing else depends on it.  Modules and items are named in it as messages show them.
-/

namespace CrateScope

/-- The kinds of declaration that are skipped when a part of them is missing. -/
inductive Incomplete where
  | item
  | enumVariant
  | usePath
  | externCrate
  deriving DecidableEq, Repr

/-- The words for an incomplete declaration. -/
def Incomplete.words : Incomplete → String
  | item => "item"
  | enumVariant => "enum variant"
  | usePath => "use path"
  | externCrate => "extern crate"

/-- Something wrong with a crate. -/
inductive Diagnostic where
  /-- The path of an import names nothing. -/
  | unresolvedImport (module path : String)
  /-- An import would bind a name to another item than the one it is bound to. -/
  | ambiguousImport (module : String) (name : Name) (space : Namespace) (existing rejected : String)
  /-- A name is declared once more in a namespace. -/
  | duplicateDefinition (module : String) (name : Name) (space : Namespace)
  /-- A declaration was skipped. -/
  | malformedItem (module : String) (what : Incomplete)
  /-- The path in a `pub(in path)` is not that of the module or one that encloses it. -/
  | unresolvedVisibility (module : String) (name : Name) (path : String)
  deriving DecidableEq, Repr

namespace Diagnostic

/-- What a diagnostic tells the user. -/
def report : Diagnostic → Report
  | unresolvedImport module path =>
    { message := String.join ["Unresolved import `", path, "` in `", module, "`"]
      code := "defmap_nameres::unresolved_import" }
  | ambiguousImport module name space existing rejected =>
    { message := String.join ["`", name, "` is imported more than once in the ", space.word,
        " namespace of `", module, "`"]
      code := "defmap_nameres::ambiguous_import"
      help := some (String.join ["`", name, "` keeps referring to `", existing,
        "`; the import of `", rejected, "` was ignored"]) }
  | duplicateDefinition module name space =>
    { message := String.join ["`", name, "` is defined more than once in the ", space.word,
        " namespace of `", module, "`"]
      code := "defmap_nameres::duplicate_definition" }
  | malformedItem module what =>
    { message := String.join ["Skipped ", what.words, " without a name in `", module, "`"]
      code := "defmap_nameres::malformed_item" }
  | unresolvedVisibility module name path =>
    { message := String.join ["Visibility path `", path, "` of `", name, "` in `", module,
        "` does not name an ancestor module"]
      code := "defmap_nameres::unresolved_visibility"
      help := some "The item is treated as `pub`" }

/-- Whether a diagnostic is only a warning. -/
def isWarning : Diagnostic → Bool
  | malformedItem .. => true
  | unresolvedVisibility .. => true
  | _ => false

end Diagnostic

end CrateScope
