import CrateScope.Resolution

/-!
# Imports

Every leaf of a `use` tree and every `extern crate` is an import: something that waits until its
path can be resolved, and then binds names in the module in which it stands.

## Main definitions

* `Import`, `ImportKind` — an import.
* `ImportStatus` — how far the path of an import could be resolved.
* `SettledImport` — an import with the status with which it was carried out.
-/

namespace CrateScope

/-- What an import does with the module or item that its path names. -/
inductive ImportKind where
  /-- An import `use a::b` binds one name. -/
  | named
  /-- An import `use a::*` binds every name of a module. -/
  | glob
  /-- An import `extern crate a` binds the name of a crate, and with `#[macro_use]` brings the
  macros of that crate into scope everywhere. -/
  | externCrate (macroUse : Bool)
  deriving DecidableEq, Repr

/-- The text by which log entries show a kind of import. -/
def ImportKind.text : ImportKind → String
  | named => "Named"
  | glob => "Glob"
  | externCrate true => "ExternCrate \x7b macro_use: true \x7d"
  | externCrate false => "ExternCrate \x7b macro_use: false \x7d"

/-- A declaration that brings names into a module. -/
structure Import where
  /-- The module in which the declaration stands. -/
  module : LocalId
  path : Path
  /-- The name that is bound.  Globs have none, nor has `extern crate a as _`. -/
  name : Option Name
  /-- From where the names that are brought in may be named, at most. -/
  visibility : Visibility
  kind : ImportKind
  deriving DecidableEq, Repr

/-- The text by which messages show the path of an import. -/
def Import.pathText (declaration : Import) : String :=
  match declaration.kind with
  | .glob => declaration.path.text ++ "::*"
  | _ => declaration.path.text

/-- How far the path of an import could be resolved. -/
inductive ImportStatus where
  /-- It names nothing, or nothing yet. -/
  | unresolved
  /-- It names something in some namespaces.  Others could still come in, but the import is carried
  out as it is: waiting for more could mean waiting for ever. -/
  | indeterminate (meaning : Meaning)
  /-- It names something in all namespaces, or in another crate, where nothing more can come. -/
  | resolved (meaning : Meaning)
  deriving DecidableEq, Repr

/-- What the path of an import means, if it names anything. -/
def ImportStatus.meaning? : ImportStatus → Option Meaning
  | unresolved => none
  | indeterminate meaning => some meaning
  | resolved meaning => some meaning

/-- An import that was carried out. -/
structure SettledImport where
  declaration : Import
  status : ImportStatus
  deriving DecidableEq, Repr

end CrateScope
